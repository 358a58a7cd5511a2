import ShaderGen.Proofs.Scope.Code
import ShaderGen.Proofs.Scope.Relation
import ShaderGen.Proofs.Typing.Depth
import ShaderGen.Proofs.Typing.Measure

/-!
# Getting types comes to an end

`Codegen.typer` follows types to a depth that the program gives, and fails with a cause of its own
where that is not enough. In a program whose structures do not contain themselves by value, and
whose array lengths are scalars, it is enough from every state, however the references of the
structures lead in circles, and following types further gives the same (`Codegen.typer_finishes`).

The argument is by the load of the structure that is to be typed. It needs to know of the types that
have been made in between only which structures have got pointer types for references and which ones
have been taken off those underway (`State.Moves`).
-/

namespace ShaderGen

open Builder Codegen List Program State

variable {bound : Nat} {id : StructId} {r : TypeRequest}

/-! ## Steps that do not run out of depth -/

namespace Builder

variable {α β : Type} {rel : Builder → Builder → Prop}

/-- Whether the step succeeds or fails, the builder is related to the one that it leaves behind, and
it does not fail for want of depth. -/
def Always (rel : Builder → Builder → Prop) (c : Build α) : Prop := ∀ b, match c b with
  | .ok _ b' => rel b b'
  | .error e b' => rel b b' ∧ e ≠ .outOfDepth

namespace Always

theorem emit {c : Emit α} (h : Relates rel c) : Always rel (liftM c : Build α) :=
    fun b => h b _ _ rfl

variable [IsPreorder Builder rel]

theorem throw {e : Failure} (other : e ≠ .outOfDepth) :
    Always rel (MonadExcept.throw e : Build α) :=
  fun b => ⟨refl_of rel b, other⟩

theorem get : Always rel (MonadState.get : Build Builder) := fun b => refl_of rel b

theorem pure {a : α} : Always rel (Pure.pure a : Build α) := fun b => refl_of rel b

theorem bind {x : Build α} {f : α → Build β} (hx : Always rel x) (hf : ∀ a, Always rel (f a)) :
    Always rel (x >>= f) := fun b => by
  have first := hx b
  rw [show (x >>= f) b = EStateM.bind x f b from rfl, EStateM.bind]
  cases made : x b with
  | error e b' =>
    rw [made] at first
    exact first
  | ok a b' =>
    have second := hf a b'
    rw [made] at first
    dsimp only at first ⊢
    split at second
    · exact trans_of rel first second
    · exact ⟨trans_of rel first second.1, second.2⟩

end Always

variable [IsPreorder Builder rel] (moves : ∀ (b : Builder) k, rel b { b with block := k })

include moves

theorem selectBlock_always (position : Option Nat) : Always rel (selectBlock position) := by
  cases position with
  | none => exact fun b => moves b none
  | some k =>
    rw [selectBlock_eq]
    refine .bind .get fun b => ?_
    split
    · split
      · exact fun b => moves b (some k)
      · exact .throw (by simp [Failure.outOfDepth])
    · exact .throw (by simp [Failure.outOfDepth])

theorem localVariable_always {text : String} {type : Ident}
    (points : Relates rel (typePointer .function type))
    (places : ∀ pointer, Relates rel (variableOf pointer .function none))
    (names : ∀ id, Relates rel (name id text)) : Always rel (localVariable text type) := by
  refine .bind (.emit points) fun pointer => .bind .get fun b => ?_
  split
  · exact .throw (by simp [Failure.outOfDepth])
  · refine .bind (.bind .get fun b => ?_) fun k => .bind (selectBlock_always moves _) fun _ => ?_
    · split
      · exact .throw (by simp [Failure.outOfDepth])
      · split
        · exact .pure
        · exact .throw (by simp [Failure.outOfDepth])
    · exact .bind (.emit (places _)) fun id => .bind (selectBlock_always moves _) fun _ =>
        .bind (.emit (names _)) fun _ => .pure

omit moves

/-- Any two builders are related. -/
abbrev Anyhow (_ _ : Builder) : Prop := True

instance : IsPreorder Builder Anyhow where
  refl _ := trivial
  trans _ _ _ _ _ := trivial

theorem completePointer_always (id pointee : Ident) :
    Always Anyhow (completePointer id pointee) := by
  refine .bind .get fun b => ?_
  split
  · exact fun _ => trivial
  · exact .throw (by simp [Failure.outOfDepth])

end Builder

section Finishes

variable {α β : Type}

/-- Started in the state, the step does not run out of depth, and the condition holds of what comes
out, if anything does. -/
def Finishes (c : Codegen α) (s : State) (post : α → State → Prop) : Prop :=
  match c s with
  | .ok a t => post a t
  | .error e _ => e ≠ .outOfDepth

namespace Finishes

variable {x : Codegen α} {f : α → Codegen β} {s : State} {mid : α → State → Prop}
  {post : β → State → Prop}

theorem mono {post' : α → State → Prop} (h : Finishes x s mid) (imp : ∀ a t, mid a t → post' a t) :
    Finishes x s post' := by
  unfold Finishes at *
  split at h
  · exact imp _ _ h
  · exact h

theorem pure {a : α} {post : α → State → Prop} (h : post a s) :
    Finishes (Pure.pure a : Codegen α) s post := h

theorem bind (hx : Finishes x s mid) (hf : ∀ a t, mid a t → Finishes (f a) t post) :
    Finishes (x >>= f) s post := by
  unfold Finishes at hx
  change match EStateM.bind x f s with
    | .ok a t => post a t
    | .error e _ => e ≠ .outOfDepth
  unfold EStateM.bind
  split at hx
  · rename_i a t ends
    rw [ends]
    exact hf a t hx
  · rename_i e t ends
    rw [ends]
    exact hx

theorem get {f : State → Codegen β} (h : Finishes (f s) s post) :
    Finishes (MonadState.get >>= f) s post := h

theorem alter {g : State → State} {f : PUnit → Codegen β} (h : Finishes (f ⟨⟩) (g s) post) :
    Finishes (modify g >>= f) s post := h

theorem build {rel : Builder → Builder → Prop} {c : Build α} (h : Builder.Always rel c) :
    Finishes (liftM c : Codegen α) s fun _ t => t.references = s.references ∧
      t.underway = s.underway := by
  unfold Finishes
  split
  · rename_i a t ends
    have ends : Steps.Ends (liftM c : Codegen α) s a t := ends
    obtain ⟨b, -, rfl⟩ := Embeds.ends_lift ends
    exact ⟨rfl, rfl⟩
  · rename_i e t fails
    have fails : Steps.Fails (liftM c : Codegen α) s e := ⟨t, fails⟩
    obtain ⟨b, failed⟩ := Embeds.fails_lift fails
    have left := h (World.builder s)
    rw [failed] at left
    exact left.2

end Finishes

end Finishes

/-! ## Steps that have no part in the argument -/

section Stays

variable {α β : Type}

/-- The step does not run out of depth, and it makes no pointer types for references and does not
change which structures are underway. -/
def Stays (c : Codegen α) : Prop :=
  ∀ s, Finishes c s fun _ t => t.references = s.references ∧ t.underway = s.underway

namespace Stays

theorem pure {a : α} : Stays (Pure.pure a : Codegen α) := fun _ => ⟨rfl, rfl⟩

theorem bind {x : Codegen α} {f : α → Codegen β} (hx : Stays x) (hf : ∀ a, Stays (f a)) :
    Stays (x >>= f) := fun s => by
  refine (hx s).bind fun a t ⟨references, underway⟩ => (hf a t).mono fun _ u same => ?_
  exact ⟨same.1.trans references, same.2.trans underway⟩

theorem get : Stays (MonadState.get : Codegen State) := fun _ => ⟨rfl, rfl⟩

theorem fail {cause : Cause} (other : cause ≠ .endless) : Stays (Codegen.fail cause : Codegen α) :=
  fun _ same => other (by injection same)

theorem ensureFits (fits : Bool) : Stays (Codegen.ensureFits fits) := by
  unfold Codegen.ensureFits
  split
  · exact .pure
  · exact .fail (by simp)

theorem emit (c : Emit α) : Stays (liftM c : Codegen α) := fun _ => ⟨rfl, rfl⟩

theorem change {g : State → State} (h : ∀ s, (g s).references = s.references ∧
    (g s).underway = s.underway) : Stays (modify g : Codegen PUnit) := h

theorem guard {c : Prop} {_ : Decidable c} {x : Codegen PUnit} {f : PUnit → Codegen β}
    (hx : Stays x) (hf : Stays (f ⟨⟩)) : Stays (if c then x >>= f else f ⟨⟩) := by
  split
  · exact .bind hx fun _ => hf
  · exact hf

theorem symbol {p : Program} {x : SymbolId} {f : Symbol → Codegen β}
    (h : ∀ d, p.symbol? x = some d → Stays (f d)) : Stays (p.symbol x >>= f) := by
  unfold Program.symbol
  split
  · exact h _ ‹_›
  · exact fun _ same => by injection same with cause; cases cause

theorem optionForM {f : α → Codegen PUnit} {o : Option α} (h : ∀ a, Stays (f a)) :
    Stays (o.forM f) := by
  cases o with
  | none => exact .pure
  | some a => exact h a

end Stays

end Stays

/-! ## Lengths of arrays -/

/-- The lengths of the dimensions that are symbols are scalars. -/
def Program.ScalarLengths (p : Program) (t : ShaderType) : Prop :=
  ∀ x, ArraySize.spec x ∈ t.arrays → ∀ d, p.symbol? x = some d → d.type.isScalar

namespace Codegen

variable {p : Program} {typer : Typer} {t : ShaderType} {d : Symbol}

/-- Scalar types are got without further types. -/
def KnowsScalars (typer : Typer) : Prop := ∀ r : TypeRequest, r.type.isScalar → Stays (typer r)

theorem filledConstant_stays (h : KnowsScalars typer) (value : ConstantValue) (depth : Nat)
    (scalar : t.isScalar) : Stays (filledConstant typer value (depth + 1) t) := by
  refine .bind (h (.plain t) scalar) fun type => ?_
  rw [if_pos scalar]
  split <;> exact .emit _

theorem isScalar_scalarType (scalar : t.isScalar) : t.scalarType.isScalar := by
  simp_all [ShaderType.isScalar, ShaderType.scalarType, ShaderType.isArray]

theorem constituents_of_isScalar (scalar : t.isScalar) (count : Nat) :
    constituents p t count = pure (replicate count t.scalarType) := by
  have notArray : t.isArray = false := by simp_all [ShaderType.isScalar]
  have notMatrix : t.isMatrix = false := by simp_all [ShaderType.isScalar, ShaderType.isMatrix]
  have notStruct : t.structId? = none := by
    unfold ShaderType.isScalar at scalar
    unfold ShaderType.structId?
    split <;> simp_all
  unfold constituents
  rw [notArray, notMatrix, notStruct]
  rfl

mutual

theorem constant_stays (h : KnowsScalars typer) : (value : ConstantValue) → ∀ {t : ShaderType},
    t.isScalar → Stays (constant p typer value t)
  | .composite parts, t, scalar => by
    rw [constant]
    refine .bind (h (.plain t) scalar) fun type => ?_
    rw [constituents_of_isScalar scalar, pure_bind]
    have scalars : ∀ u ∈ replicate parts.length t.scalarType, u.isScalar :=
      fun u hu => eq_of_mem_replicate hu ▸ isScalar_scalarType scalar
    exact .bind (constants_stays h parts scalars) fun ids => .emit _
  | .bool _, t, scalar | .int _, t, scalar | .uint _, t, scalar | .float _, t, scalar => by
    rw [constant]
    exact filledConstant_stays h _ 2 scalar

theorem constants_stays (h : KnowsScalars typer) : (parts : List ConstantValue) →
    ∀ {types : List ShaderType}, (∀ t ∈ types, t.isScalar) → Stays (constants p typer parts types)
  | [], _, _ | _ :: _, [], _ => .pure
  | part :: parts, t :: types, scalars => by
    rw [constants]
    refine .bind (constant_stays h part (scalars t mem_cons_self)) fun id => ?_
    have others := constants_stays h parts fun u hu => scalars u (mem_cons_of_mem t hu)
    exact .bind others fun _ => .pure

end

theorem specConstant_stays (h : KnowsScalars typer) (scalar : d.type.isScalar) :
    Stays (specConstant p typer d) := by
  have rest : ∀ id type, Stays (do
      d.type.qualifier.layout.specId.forM fun n =>
        (decorateWith id .specId n : Codegen Unit)
      name id d.name
      return Binding.value id type : Codegen Binding) := fun id type =>
    .bind (.optionForM fun n => .emit _) fun _ => .bind (.emit _) fun _ => .pure
  refine .bind (h (.plain d.type) scalar) fun type => ?_
  split
  · rename_i parts _
    rw [constituents_of_isScalar scalar, pure_bind]
    have scalars : ∀ u ∈ replicate parts.length d.type.scalarType, u.isScalar :=
      fun u hu => eq_of_mem_replicate hu ▸ isScalar_scalarType scalar
    refine .bind (constants_stays h parts scalars) fun ids => ?_
    exact .bind (.emit _) fun id => rest id type
  · exact .bind (.emit _) fun id => rest id type

theorem decorateObject_stays (var : Ident) (t : ShaderType) (storage : StorageClass) :
    Stays (decorateObject p var t storage) := by
  have meaning : ∀ m, Stays (decorateMeaning var m) := by
    intro m
    refine .bind (.emit _) fun _ => .guard (.change fun s => ⟨rfl, rfl⟩) ?_
    refine .bind (.bind .get fun _ => .pure) fun b => ?_
    split
    · exact .emit _
    · exact .pure
  refine .bind (.emit _) fun _ => .bind (.emit _) fun _ => .bind (.optionForM meaning) fun _ => ?_
  exact .bind (.emit _) fun _ => .emit _

theorem newBinding_stays (h : KnowsScalars typer) (x : SymbolId)
    (scalar : d.type.isScalar) : Stays (newBinding p typer x d) := by
  unfold newBinding
  split
  · exact specConstant_stays h scalar
  split
  · refine .bind (h (.plain d.type) scalar) fun type => ?_
    exact .bind (constant_stays h _ scalar) fun _ => .pure
  split
  · refine .bind (.change fun s => ⟨rfl, rfl⟩) fun _ => .bind (h _ scalar) fun type => ?_
    exact .bind (.emit _) fun var => .bind (decorateObject_stays var _ _) fun _ => .pure
  · refine .bind (h (.plain d.type) scalar) fun type => ?_
    refine .bind (fun s => .build (show Builder.Always Builder.Anyhow _ from
      localVariable_always (fun _ _ => trivial) (fun _ _ _ _ => trivial)
        (fun _ _ _ _ _ => trivial) fun _ _ _ _ _ => trivial)) fun var => ?_
    exact .bind (.optionForM fun _ => .emit _) fun _ => .pure

theorem bindingOf_stays (h : KnowsScalars typer) {x : SymbolId}
    (scalar : ∀ d, p.symbol? x = some d → d.type.isScalar) : Stays (bindingOf p typer x) := by
  refine .bind .get fun s => ?_
  split
  · exact .pure
  · refine .symbol fun d found => .bind (newBinding_stays h x (scalar d found)) fun binding => ?_
    exact .bind (.change fun s => ⟨rfl, rfl⟩) fun _ => .pure

theorem arrayOf_stays (h : KnowsScalars typer) {size : ArraySize}
    (scalar : ∀ x, size = .spec x → ∀ d, p.symbol? x = some d → d.type.isScalar) (element : Ident)
    (stride : Option Nat) (lastMember : Bool) :
    Stays (arrayOf p typer size element stride lastMember) := by
  unfold arrayOf
  refine .bind (.ensureFits _) fun _ => ?_
  split
  · exact .bind (.emit _) fun _ => .emit _
  · refine .bind (bindingOf_stays h (scalar _ rfl)) fun binding => ?_
    split
    · exact .emit _
    · exact .fail (by simp)
  · split
    · exact .bind (.emit _) fun _ => .emit _
    · exact .emit _

theorem elementType_stays (notStruct : r.type.structId? = none)
    (notReference : ∀ id, r.type.basic ≠ .reference id) : Stays (elementType p typer r) := by
  unfold elementType
  split
  case h_2 => split <;> exact .bind (.emit _) fun _ => .emit _
  case h_7 | h_8 => simp_all [ShaderType.structId?]
  case h_11 => exact absurd ‹_› (notReference _)
  case h_1 | h_6 | h_9 => exact .emit _
  all_goals exact .bind (.emit _) fun _ => .emit _

theorem knowsScalars_typeWithin (depth : Nat) : KnowsScalars (typeWithin p (depth + 1)) := by
  intro r scalar
  have noArrays : r.type.arrays = [] := by
    simp_all [ShaderType.isScalar, ShaderType.isArray]
  rw [typeWithin, typeStep, noArrays]
  unfold ShaderType.isScalar at scalar
  refine elementType_stays ?_ fun id => ?_
  · unfold ShaderType.structId?
    split <;> simp_all
  · intro reference
    simp_all

end Codegen

/-! ## What typing changes -/

/-- The state in which the members of a structure are typed. -/
def State.enter (s : State) (id : StructId) : State := { s with underway := id :: s.underway }

/-- Between the states, pointer types for references have been made at most. If none of a structure
has been, then only structures inside have been taken off those underway. -/
structure State.Moves (p : Program) (inside : StructId → Prop) (s t : State) : Prop where
  refers : ∀ id, s.Refers id → t.Refers id
  underway : (∀ id < p.structs.length, t.Refers id → s.Refers id) →
    ∀ id ∈ s.underway, ¬ inside id → id ∈ t.underway

namespace State.Moves

variable {p : Program} {inside : StructId → Prop} {s t u : State} {inside' : StructId → Prop}

theorem of_same (references : t.references = s.references) (underway : t.underway = s.underway) :
    Moves p inside s t where
  refers id h := by
    unfold Refers at *
    rwa [references]
  underway _ id mem _ := underway ▸ mem

theorem trans (first : Moves p inside s t) (second : Moves p inside t u) : Moves p inside s u where
  refers id h := second.refers id (first.refers id h)
  underway none id mem outside := by
    have before : ∀ id < p.structs.length, t.Refers id → s.Refers id :=
      fun id declared h => none id declared (second.refers id h)
    have after : ∀ id < p.structs.length, u.Refers id → t.Refers id :=
      fun id declared h => first.refers id (none id declared h)
    exact second.underway after id (first.underway before id mem outside) outside

theorem mono (h : Moves p inside s t)
    (imp : ∀ id, inside id → inside' id) : Moves p inside' s t where
  refers := h.refers
  underway none id mem outside := h.underway none id mem fun inner => outside (imp id inner)

theorem refers_cons {id x : StructId} {r : ReferencePointer} :
    ({ t with references := (id, r) :: t.references } : State).Refers x ↔ x = id ∨ t.Refers x := by
  by_cases same : x = id
  · simp [Refers, same]
  · have other : (x == id) = false := by simpa using same
    simp [Refers, lookup_cons, other, same]

theorem refer (h : Moves p inside s t) (id : StructId) (r : ReferencePointer) :
    Moves p inside s { t with references := (id, r) :: t.references } where
  refers x referred := refers_cons.2 (.inr (h.refers x referred))
  underway none := h.underway fun x declared referred =>
    none x declared (refers_cons.2 (.inr referred))

theorem jump (h : Moves p inside s t)
    (declared : id < p.structs.length) (new : ¬ s.Refers id) (r : ReferencePointer) :
    Moves p inside' s { t with references := (id, r) :: t.references } where
  refers := (h.refer id r).refers
  underway none := absurd (none id declared (refers_cons.2 (.inl rfl))) new

end State.Moves

namespace Program

variable {p : Program} {s t : State} {outer : StructId}

theorem unreferred_subset (h : ∀ id, s.Refers id → t.Refers id) :
    p.unreferred t ⊆ p.unreferred s := by
  intro id mem
  simp only [unreferred, Finset.mem_filter] at mem ⊢
  exact ⟨mem.1, fun referred => mem.2 (h id referred)⟩

/-- While the members of a structure are typed, either a pointer type has been made for references
to some structure, or all structures that were underway are still, apart from parts of this one. -/
theorem moves_cases (h : (s.enter outer).Moves p (p.Within · outer) t) :
    (p.unreferred t).card < (p.unreferred s).card ∨
      (p.unreferred t).card ≤ (p.unreferred s).card ∧
        ∀ x ∈ outer :: s.underway, ¬ p.Within x outer → x ∈ t.underway := by
  have subset : p.unreferred t ⊆ p.unreferred s := unreferred_subset h.refers
  by_cases none : ∀ id < p.structs.length, t.Refers id → s.Refers id
  · exact .inr ⟨Finset.card_le_card subset, h.underway none⟩
  · push Not at none
    obtain ⟨id, declared, now, before⟩ := none
    refine .inl (Finset.card_lt_card ((Finset.ssubset_iff_of_subset subset).2 ⟨id, ?_, ?_⟩))
    · simp [unreferred, declared, before]
    · simp [unreferred, now]

theorem load_part (acyclic : p.Acyclic) {inner : StructId} (declared : inner < p.structs.length)
    (held : p.Holds outer inner) (h : (s.enter outer).Moves p (p.Within · outer) t) :
    p.load t inner < p.load s outer := by
  have within : p.Within inner outer := .single held
  rcases moves_cases h with fewer | ⟨same, kept⟩
  · exact load_lt_of_unreferred fewer inner outer
  · have fewer := card_parts_lt acyclic declared within
    exact load_lt_of_parts same (freeWeight_part within kept) fewer

/-- A structure that a reference leads to and that is not underway has less to do than the one with
the reference. -/
theorem load_jump (acyclic : p.Acyclic) {target : StructId} (declared : target < p.structs.length)
    (away : target ∉ t.underway) (h : (s.enter outer).Moves p (p.Within · outer) t) :
    p.load t target < p.load s outer := by
  rcases moves_cases h with fewer | ⟨same, kept⟩
  · exact load_lt_of_unreferred fewer target outer
  · exact load_lt_of_freeWeight same (freeWeight_jump acyclic declared away kept)

end Program

/-- The structures that typing for a request may take off those underway. -/
def TypeRequest.Inside (p : Program) (r : TypeRequest) (id : StructId) : Prop :=
  ∃ outer, r.type.structId? = some outer ∧ (id = outer ∨ p.Within id outer)

/-- No structure that typing for a request may begin with has a load of `bound` or more. -/
structure TypeRequest.Bounded (p : Program) (r : TypeRequest) (s : State) (bound : Nat) : Prop where
  struct : ∀ id < p.structs.length, r.type.structId? = some id → p.load s id < bound
  reference : ∀ id < p.structs.length, r.type.basic = .reference id → id ∉ s.underway →
    p.load s id < bound

/-- Every request is typed that is within the bound. -/
def Typer.Reaches (p : Program) (typer : Typer) (bound : Nat) : Prop :=
  ∀ (r : TypeRequest) (s : State), p.ScalarLengths r.type → r.Bounded p s bound →
    Finishes (typer r) s fun _ t => s.Moves p (r.Inside p) t

/-- The lengths of the arrays among the members of structures that are symbols are scalars. -/
def Program.ScalarMemberLengths (p : Program) : Prop :=
  ∀ id s, p.struct? id = some s → ∀ m ∈ s.members, p.ScalarLengths m.type

theorem Stays.after {α : Type} {c : Codegen α} {p : Program} {inside : StructId → Prop}
    {s t : State} (h : Stays c) (moved : s.Moves p inside t) :
    Finishes c t fun _ u => s.Moves p inside u :=
  (h t).mono fun _ _ same => moved.trans (.of_same same.1 same.2)

/-- Steps over a list, each of which keeps a relation to the first state. -/
theorem Finishes.mapM {α β : Type} {f : α → Codegen β} {list : List α} {s : State}
    {rel : State → Prop} (start : rel s)
    (h : ∀ a ∈ list, ∀ t, rel t → Finishes (f a) t fun _ u => rel u) :
    Finishes (list.mapM f) s fun _ t => rel t := by
  induction list generalizing s with
  | nil => exact start
  | cons a list ih =>
    rw [mapM_cons]
    refine (h a mem_cons_self s start).bind fun b t kept => ?_
    refine (ih kept fun x mem => h x (mem_cons_of_mem a mem)).bind fun bs u kept => ?_
    exact .pure kept

namespace Codegen

variable {p : Program} {typer : Typer}

section Members

variable {s : State} {d : StructDecl} (reaches : typer.Reaches p bound) (acyclic : p.Acyclic)
  (found : p.struct? id = some d) (lengths : ∀ m ∈ d.members, p.ScalarLengths m.type)
  (load : p.load s id ≤ bound) (use : StructUse)

include reaches acyclic found lengths load

/-- The members of a structure are typed if that is enough for all that has less to do. -/
theorem memberTypes_finishes : Finishes (memberTypes p typer d use) (s.enter id)
      fun _ t => (s.enter id).Moves p (p.Within · id) t := by
  refine Finishes.mapM (.of_same rfl rfl) fun (m, source) mem t moved => ?_
  obtain ⟨present, listed⟩ : m ∈ d.members ∧ p.hasMember m = true := by
    simp only [presentMembers, mem_filter] at mem
    exact ⟨(mem_zipIdx' mem.1).2 ▸ getElem_mem _, mem.2⟩
  have holds : ∀ inner, m.type.structId? = some inner → p.Holds id inner :=
    fun inner h => ⟨d, m, found, present, listed, h⟩
  refine (reaches _ t (lengths m present)
    ⟨fun inner declared h => ?_, fun _ declared _ away => ?_⟩).mono
    fun _ u inside => moved.trans (inside.mono ?_)
  · exact Nat.lt_of_lt_of_le (load_part acyclic declared (holds inner h) moved) load
  · exact Nat.lt_of_lt_of_le (load_jump acyclic declared away moved) load
  · rintro inner ⟨outer, h, rfl | deep⟩
    · exact .single (holds _ h)
    · exact deep.tail (holds _ h)

theorem newStructType_finishes : Finishes (newStructType p typer id d use) s
    fun _ t => s.Moves p (fun x => x = id ∨ p.Within x id) t := by
  have typed := memberTypes_finishes reaches acyclic found lengths load use
  refine .alter (typed.bind fun members t moved => ?_)
  have left : s.Moves p (fun x => x = id ∨ p.Within x id)
      { t with
        underway := t.underway.filter (· != id)
        memberTables := (id, p.numberMembers 0 d.members) :: t.memberTables } := by
    refine ⟨moved.refers, fun none x mem outside => ?_⟩
    have kept := moved.underway none x (mem_cons_of_mem id mem)
      fun inner => outside (.inr inner)
    exact mem_filter.2 ⟨kept, by simpa using fun same => outside (.inl same)⟩
  have rest : Stays (do
      ensureFits (!use.packing.isExplicit || p.layoutFits use.packing d use.rowMajor)
      let type ← typeStruct members d.name
      use.decorate p id d type
      return type : Codegen Ident) :=
    .bind (.ensureFits _) fun _ => .bind (.emit _) fun type => .bind (.emit _) fun _ => .pure
  exact .alter (rest.after left)

end Members

section Step

variable {s : State} (reaches : ∀ k, bound = k + 1 → typer.Reaches p k) (acyclic : p.Acyclic)
  (lengths : p.ScalarMemberLengths)

include reaches acyclic lengths

/-- A structure is typed if its load is within the bound. -/
theorem structType_finishes (id : StructId) (use : StructUse)
    (load : id < p.structs.length → p.load s id < bound) :
    Finishes (structType p typer id use) s fun _ t =>
      s.Moves p (fun x => x = id ∨ p.Within x id) t := by
  unfold structType struct
  cases found : p.struct? id with
  | none => exact fun same => by injection same with cause; cases cause
  | some d =>
    have declared : id < p.structs.length := (List.getElem?_eq_some_iff.1 found).1
    obtain ⟨k, rfl⟩ := Nat.exists_eq_add_one_of_ne_zero (Nat.ne_zero_of_lt (load declared))
    have new := newStructType_finishes (reaches k rfl) acyclic found (lengths id d found)
      (Nat.le_of_lt_succ (load declared)) use
    rw [pure_bind]
    refine .get ?_
    split
    · exact .pure (.of_same rfl rfl)
    · refine new.bind fun type t moved => ?_
      exact .alter (.pure (moved.trans (.of_same rfl rfl)))
    · exact new

theorem declareReference_finishes (new : ¬ s.Refers id)
    (load : id < p.structs.length → p.load s id < bound) (inside : StructId → Prop) :
    Finishes (declareReference p typer id) s fun _ t => s.Moves p inside t := by
  unfold declareReference targetType struct
  cases found : p.struct? id with
  | none => exact fun same => by injection same with cause; cases cause
  | some d =>
    have declared : id < p.structs.length := (List.getElem?_eq_some_iff.1 found).1
    rw [pure_bind]
    refine (structType_finishes reaches acyclic lengths id _ load).bind fun referent t moved => ?_
    refine .get ?_
    have finish : ∀ type u, s.Moves p (fun x => x = id ∨ p.Within x id) u → Finishes (do
        setReference id (.declared type)
        return type : Codegen Ident) u fun _ v => s.Moves p inside v :=
      fun type u moved => .alter (.pure (moved.jump declared new _))
    split
    · rename_i type _
      have complete : Stays (completePointer type referent : Codegen Unit) :=
        fun s => .build (completePointer_always _ _)
      exact (complete.after moved).bind fun _ => finish type
    · exact finish _ t moved
    · exact ((Stays.emit _).after moved).bind finish

/-- The pointer type for references to a structure is got, if the structure need not be typed for it
or its load is within the bound. -/
theorem referenceType_finishes
    (load : id < p.structs.length → id ∉ s.underway → p.load s id < bound)
    (inside : StructId → Prop) :
    Finishes (referenceType p typer id) s fun _ t => s.Moves p inside t := by
  refine (Stays.emit _ s).bind fun _ t ⟨references, underway⟩ => ?_
  have start : s.Moves p inside t := .of_same references underway
  refine .get ?_
  split
  · exact .pure start
  split
  · refine .bind (Stays.emit _ t) fun type u same => ?_
    have announced : s.Moves p inside u := start.trans (.of_same same.1 same.2)
    exact .alter (.pure (announced.refer id _))
  · rename_i unknown away
    have new : ¬ t.Refers id := by simp [Refers, unknown]
    refine (declareReference_finishes reaches acyclic lengths new ?_ inside).mono
      fun _ u after => start.trans after
    intro declared
    have away : id ∉ s.underway := by simpa [underway] using away
    have same : p.load t id = p.load s id := load_congr references underway
    rw [same]
    exact load declared away

theorem elementType_finishes (bounded : r.Bounded p s bound) :
    Finishes (elementType p typer r) s fun _ t => s.Moves p (r.Inside p) t := by
  cases isStruct : r.type.structId? with
  | some id =>
    have typed : elementType p typer r = structType p typer id (r.structUse false) := by
      unfold ShaderType.structId? at isStruct
      unfold elementType
      split at isStruct <;> simp_all
    rw [typed]
    refine (structType_finishes reaches acyclic lengths id _ fun declared =>
      bounded.struct id declared isStruct).mono fun _ t moved => moved.mono fun x inner => ?_
    exact ⟨id, isStruct, inner⟩
  | none =>
    by_cases isReference : ∃ id, r.type.basic = .reference id
    · obtain ⟨id, basic⟩ := isReference
      unfold elementType
      rw [basic]
      exact referenceType_finishes reaches acyclic lengths
        (fun declared => bounded.reference id declared basic) _
    · have plain : Stays (elementType p typer r) :=
        elementType_stays isStruct fun id basic => isReference ⟨id, basic⟩
      exact plain.after (.of_same rfl rfl)

theorem typeWithDimensions_finishes (knows : KnowsScalars typer) (bounded : r.Bounded p s bound)
    (dimensions : List ArraySize) (lastMember : Bool)
    (scalar : ∀ x, ArraySize.spec x ∈ dimensions → ∀ d, p.symbol? x = some d → d.type.isScalar) :
    Finishes (typeWithDimensions p typer r dimensions lastMember) s
      fun _ t => s.Moves p (r.Inside p) t := by
  induction dimensions generalizing lastMember with
  | nil => exact elementType_finishes reaches acyclic lengths bounded
  | cons size inner ih =>
    have array : ∀ element stride, Stays (arrayOf p typer size element stride lastMember) :=
      fun _ _ => arrayOf_stays knows (fun x same => scalar x (same ▸ mem_cons_self)) _ _ _
    unfold typeWithDimensions
    split
    · rename_i id isStruct
      have element := structType_finishes reaches acyclic lengths id (r.structUse true)
        fun declared => bounded.struct id declared isStruct
      refine element.bind fun element t moved => (array _ _).after (moved.mono fun x inner => ?_)
      exact ⟨id, isStruct, inner⟩
    · have element := ih false fun x mem => scalar x (mem_cons_of_mem size mem)
      exact element.bind fun element t moved => (array _ _).after moved

theorem typeStep_reaches (knows : KnowsScalars typer) : Typer.Reaches p (typeStep p typer) bound :=
  fun r _ scalar bounded => typeWithDimensions_finishes reaches acyclic lengths knows bounded
    r.type.arrays r.lastMember scalar

end Step

theorem typeWithin_reaches (acyclic : p.Acyclic) (lengths : p.ScalarMemberLengths) (bound : Nat) :
    Typer.Reaches p (typeWithin p (bound + 2)) bound := by
  induction bound with
  | zero =>
    exact typeStep_reaches (fun k h => by cases h) acyclic lengths (knowsScalars_typeWithin 0)
  | succ bound ih =>
    refine typeStep_reaches (fun k h => ?_) acyclic lengths (knowsScalars_typeWithin (bound + 1))
    cases h
    exact ih

end Codegen

/-! ## The depth is enough -/

/-- Every type is got within the depth, from every state: whichever structures have pointer types
for references, have types, or count as underway. So the depth does not show: the typer is what it
would be without a bound, where every further type is asked of the typer itself. Nor does the depth
to which layouts are followed. -/
theorem Codegen.typer_finishes {p : Program} (acyclic : p.Acyclic)
    (lengths : p.ScalarMemberLengths) (r : TypeRequest) (scalar : p.ScalarLengths r.type)
    (s : State) :
    (∀ t, typer p r s ≠ .error .outOfDepth t) ∧
      typer p r s = typeStep p (typer p) r s ∧
      (∀ depth ≥ p.typeDepth, typeWithin p depth r s = typer p r s) ∧
      ∀ depth ≥ p.structs.length, ∀ t, p.shapeWithin depth t = p.shape t := by
  have finishes : ∀ t, typer p r s ≠ .error .outOfDepth t := by
    have enough : ∀ id, p.load s id < p.typeDepth - 2 := fun id => by
      have := p.load_lt_typeDepth s id
      omega
    have depth : p.typeDepth - 2 + 2 = p.typeDepth := by
      have := p.load_lt_typeDepth s 0
      omega
    have reaches := typeWithin_reaches acyclic lengths (p.typeDepth - 2)
    rw [depth] at reaches
    have ends := reaches r s scalar ⟨fun id _ _ => enough id, fun id _ _ _ => enough id⟩
    intro t out
    unfold Finishes at ends
    rw [← typer, out] at ends
    exact ends rfl
  have deeper : ∀ depth ≥ p.typeDepth, typeWithin p depth r s = typer p r s := by
    intro depth le
    rcases typeWithin_refines le r s with ⟨t, out⟩ | same
    · exact absurd out (finishes t)
    · exact same
  refine ⟨finishes, (deeper (p.typeDepth + 1) (Nat.le_succ _)).symm, deeper, fun depth le t => ?_⟩
  exact shapeWithin_eq t [] depth _ (fun _ _ inner _ => acyclic inner) nodup_nil nofun nofun le
    (Nat.le_refl _)

/-- Two structures with references to each other, one of which holds the other by value. -/
def Program.ring : Program :=
  { structs :=
      [{ name := "Node"
         members := [{ name := "next", type := { basic := .reference 1 } },
           { name := "leaf", type := { basic := .struct 1 } }] },
       { name := "Leaf"
         members := [{ name := "back", type := { basic := .reference 0 } },
           { name := "weights", type := { basic := .float 32, arrays := [.spec 0] } }] }]
    symbols :=
      [{ name := "count", type := { basic := .int 32, qualifier := { specConstant := true } } }] }

theorem Codegen.typer_finishes_ring :
    ring.Acyclic ∧ ring.ScalarMemberLengths ∧
      ring.ScalarLengths { basic := .struct 0, arrays := [.spec 0] } ∧
      ∀ s t, typer ring
        { type := { basic := .struct 0, arrays := [.spec 0] }, packing := .std430 } s ≠
          .error .outOfDepth t := by
  have down : ∀ outer inner, ring.Holds outer inner → outer < inner := by
    rintro (_ | _ | outer) inner ⟨d, m, found, mem, -, isStruct⟩ <;> cases found
    · rcases mem_pair.1 mem with rfl | rfl <;> cases isStruct
      exact Nat.zero_lt_one
    · rcases mem_pair.1 mem with rfl | rfl <;> cases isStruct
  have acyclic : ring.Acyclic := fun id self => by
    have below : ∀ inner outer, ring.Within inner outer → outer < inner := by
      intro inner outer h
      induction h with
      | single held => exact down _ _ held
      | tail _ held ih => exact Nat.lt_trans (down _ _ held) ih
    exact Nat.lt_irrefl id (below id id self)
  have count : ∀ t : ShaderType, (∀ x, ArraySize.spec x ∈ t.arrays → x = 0) →
      ring.ScalarLengths t := by
    intro t only x mem d found
    cases only x mem
    cases found
    rfl
  have lengths : ring.ScalarMemberLengths := by
    rintro (_ | _ | id) d found m mem <;> cases found <;>
      rcases mem_pair.1 mem with rfl | rfl <;> exact count _ (by simp)
  have asked := count { basic := .struct 0, arrays := [.spec 0] } (by simp)
  exact ⟨acyclic, lengths, asked, fun s => (typer_finishes acyclic lengths _ asked s).1⟩

end ShaderGen
