import ShaderGen.Proofs.Scope.Symbol
import ShaderGen.Proofs.Typing.Placing
import ShaderGen.Proofs.Typing.Trace

/-!
# Getting types keeps to the course

Getting a type takes a regular state along a trace, and what comes out is the type of the module for
the type that was asked for (`Codegen.typeWithin_yields`). On the way types are entered for the
structures that are asked for. Outside of any layout these are only the structure in question and
those inside it, since a reference leads to structures that are laid out, and a scalar length has no
structure behind it.
-/

namespace ShaderGen

open Builder List
open Steps (Ends ends_bind ends_then ends_pure)

variable {type : Ident} {s u : State} {decl : StructDecl} {id : StructId} {keys : StructId → Prop}
  {packing : Packing} {t : ShaderType} {α : Type}

/-! ## Building types -/

namespace Codegen

theorem sampledType_progress (t : SampledType) : Relates Progress (sampledType t) := by
  cases t
  · exact (typeFloat_makes 32).progress
  · exact (typeInt_makes 32 true).progress
  · exact (typeInt_makes 32 false).progress

theorem samplerType_progress (s : Sampler) (format : ImageFormat) :
    Relates Progress (samplerType s format) := by
  unfold samplerType
  split
  · exact typeSampler_makes.progress
  · refine .bind (sampledType_progress _) fun sampled =>
      .bind (require_progress (Sampler.requirements_general _)) fun _ => ?_
    refine .bind (require_progress (ImageFormat.requirements_general _)) fun _ => ?_
    refine .bind (typeImage_makes _).progress fun image => ?_
    split
    · exact (typeSampledImage_makes image).progress
    · exact .pure

theorem shapedType_makes (t : ShaderType) (scalar : Ident) :
    Builder.Makes (shapedType t scalar) fun id b => b.Shaped t scalar id := by
  unfold shapedType Shaped
  split
  · intro b id b' ends tidy
    obtain ⟨column, b1, first, ends⟩ := ends_bind ends
    obtain ⟨tidy1, later1, vector⟩ := typeVector_makes scalar t.matrixRows b column b1 first tidy
    obtain ⟨tidy2, later2, matrix⟩ := typeMatrix_makes column t.matrixCols b1 id b' ends tidy1
    exact ⟨tidy2, later1.trans later2, column, vector.later later2, matrix⟩
  · exact typeVector_makes scalar t.vectorSize

/-! ## Decorations of variables -/

/-- What the decorations of a variable settle. -/
def objectNote (t : ShaderType) (topic : Decoration) : Decoration × Option Operand :=
  let l := t.qualifier.layout
  (topic, match topic with
    | .location => l.location.map .literal
    | .component => l.component.map .literal
    | .inputAttachmentIndex => l.inputAttachmentIndex.map .literal
    | .descriptorSet => some (.literal (l.set.getD 0))
    | .binding => l.binding.map .literal
    | .offset => l.xfbOffset.map .literal
    | .xfbBuffer => l.xfbBuffer.map .literal
    | .xfbStride => l.xfbStride.map .literal
    | _ => t.qualifier.builtIn.map .builtIn)

/-- A decoration that a variable of the type gets when it is made. -/
abbrev ObjectNote (var : Ident) (t : ShaderType) : Annotation → Prop :=
  OwnNote var fun _ => objectNote t

section Object

variable (var : Ident) (t : ShaderType)

theorem settle_adorned {d topic : Decoration} {argument : Option Operand} (other : d ≠ .arrayStride)
    (found : d.topic? = some topic) (settled : objectNote t topic = (d, argument)) :
    Relates (Adorned (ObjectNote var t))
      (annotate { target := var, decoration := d, argument }) := by
  refine annotate_adorned ⟨fun _ => rfl, other, fun topic' found' => ?_⟩
  cases found.symm.trans found'
  exact settled.symm

theorem decorate_adorned {d : Decoration} (plain : d.IsPlain) :
    Relates (Adorned (ObjectNote var t)) (decorate var d) := by
  refine annotate_adorned ⟨fun _ => rfl, ?_, by simp [plain]⟩
  rintro rfl
  cases plain

theorem settleAll_adorned (o : Option Nat) {d topic : Decoration} (other : d ≠ .arrayStride)
    (found : d.topic? = some topic) (settled : objectNote t topic = (d, o.map .literal)) :
    Relates (Adorned (ObjectNote var t)) (o.forM (decorateWith var d)) := by
  refine .optionForM fun n mem => settle_adorned var t other found ?_
  rw [settled, Option.mem_def.1 mem, Option.map_some]

theorem decoratePlace_adorned (target : Target) : Relates (Adorned (ObjectNote var t))
    (decoratePlace var t.qualifier target) := by
  have each := settleAll_adorned var t
  unfold decoratePlace
  refine .guard (each _ (by simp) rfl rfl) (.bind (each _ (by simp) rfl rfl) fun _ =>
    .bind (each _ (by simp) rfl rfl) fun _ => ?_)
  dsimp only
  split
  · rename_i set found
    exact .bind (settle_adorned var t (by simp) rfl (by simp [objectNote, found])) fun _ =>
      each _ (by simp) rfl rfl
  · rename_i found
    exact .guard (settle_adorned var t (by simp) rfl (by simp [objectNote, found]))
      (each _ (by simp) rfl rfl)

theorem decorateTreatment_adorned (storage : StorageClass) (stage : Stage) :
    Relates (Adorned (ObjectNote var t)) (decorateTreatment var t.qualifier storage stage) := by
  have rest : Relates (Adorned (ObjectNote var t)) (do
      let q := t.qualifier
      q.invariantDecoration?.forM (decorate var)
      q.precision.decoration?.forM (decorate var) : Emit Unit) := by
    refine .bind (.optionForM fun d hd => ?_) fun _ => .optionForM fun d hd => ?_
    · unfold Qualifier.invariantDecoration? at hd
      split at hd <;> cases hd
      exact decorate_adorned var t rfl
    · exact decorate_adorned var t (Precision.isPlain hd)
  unfold decorateTreatment
  refine .guard (.optionForM fun d hd => decorate_adorned var t (Interpolation.isPlain hd)) ?_
  split
  · rename_i d hd
    refine .bind (require_adorned (Auxiliary.requirements_general _ _)) fun _ => ?_
    exact .bind (decorate_adorned var t (Auxiliary.isPlain hd)) fun _ => rest
  · exact rest

theorem decorateMemory_adorned : Relates (Adorned (ObjectNote var t)) (decorateMemory var t) := by
  have each := settleAll_adorned var t
  refine .fork ?_ fun rest => .bind .getEmit fun b => .bind (.forM fun d mem => ?_) fun _ =>
    .bind (each _ (by simp) rfl rfl) fun _ => rest
  · split
    · rename_i buffer found
      refine .bind (settle_adorned var t (by simp) rfl (by simp [objectNote, found])) fun _ => ?_
      exact .bind (addCapability_adorned _) fun _ => each _ (by simp) rfl rfl
    · exact each _ (by simp) rfl rfl
  · exact decorate_adorned var t (MemoryQualifiers.isPlain mem)

theorem decorateObject_adorned (p : Program) (storage : StorageClass) :
    Relates (State.Sparing (Adorned (ObjectNote var t))) (decorateObject p var t storage) := by
  have meaning : ∀ m, t.qualifier.builtIn = some m →
      Relates (State.Sparing (Adorned (ObjectNote var t))) (decorateMeaning var m) := by
    intro m found
    refine .bind (sparing_lift (settle_adorned var t (by simp) rfl (by simp [objectNote, found])))
      fun _ => ?_
    refine .guard (.remember fun s => .of_same rfl rfl rfl rfl rfl) (.bind .builder fun b => ?_)
    split
    · exact sparing_lift (decorate_adorned var t rfl)
    · exact .pure
  refine .bind (sparing_lift (decoratePlace_adorned var t _)) fun _ => ?_
  refine .bind (sparing_lift (require_adorned (builtInRequirements_general _ _ _))) fun _ => ?_
  refine .bind (.optionForM fun m found => meaning m found) fun _ => ?_
  refine .bind (sparing_lift (decorateTreatment_adorned var t _ _)) fun _ => ?_
  exact sparing_lift (decorateMemory_adorned var t)

end Object

/-! ## Symbols -/

variable {p : Program} {typer : Typer}

/-- The parts that constants of a sort of types are made of are of that sort. -/
structure Divides (p : Program) (good : ShaderType → Prop) : Prop where
  plain : ∀ t, good t → good { t with qualifier := {} }
  parts : ∀ t count, good t → ∀ s ts s', Ends (constituents p t count) s ts s' → ∀ u ∈ ts, good u
  fill : ∀ t, good t → t.isScalar = false → good (fillParts t).1

theorem divides_all : Divides p fun _ => True := ⟨by simp, by simp, by simp⟩

theorem divides_scalars : Divides p fun t => t.isScalar where
  plain t scalar := scalar
  parts t count scalar s ts s' ends u mem := by
    rw [constituents_of_isScalar scalar] at ends
    obtain ⟨rfl, -⟩ := ends_pure ends
    rw [eq_of_mem_replicate mem]
    exact isScalar_scalarType scalar
  fill t scalar other := by simp [scalar] at other

/-- Types of a sort are got by steps that keep to the relation, as are all modest steps. -/
structure Admits (p : Program) (typer : Typer) (good : ShaderType → Prop)
    (rel : State → State → Prop) : Prop where
  divides : Divides p good
  modest : ∀ s t : State, s.Modest t → rel s t
  types : ∀ r : TypeRequest, good r.type → Relates rel (typer r)

section Bindings

variable {rel : State → State → Prop} {m : Type → Type}

theorem build_relates (modest : ∀ s t : State, s.Modest t → rel s t) [Monad m]
    [MonadLiftT m Codegen] [Steps m Builder] [Embeds m Codegen State] {c : m α}
    (h : Relates Progress c) : Relates rel (liftM c : Codegen α) :=
  fun s a t ends => modest s t (sparing_lift h s a t ends)

variable {good : ShaderType → Prop}

theorem Admits.plain (admits : Admits p typer good rel) (h : good t) :
    Relates rel (typer (.plain t)) := admits.types (.plain t) (admits.divides.plain t h)

theorem Admits.build (admits : Admits p typer good rel) [Monad m]
    [MonadLiftT m Codegen] [Steps m Builder] [Embeds m Codegen State] {c : m α}
    (h : Relates Progress c) : Relates rel (liftM c : Codegen α) :=
  build_relates admits.modest h

theorem Admits.of_modest (admits : Admits p typer good rel) {c : Codegen α}
    (h : Relates State.Modest c) : Relates rel c :=
    fun s a t ends => admits.modest s t (h s a t ends)

variable [IsPreorder State rel]

theorem filledConstant_relates (admits : Admits p typer good rel) (value : ConstantValue)
    (depth : Nat) (h : good t) : Relates rel (filledConstant typer value depth t) := by
  induction depth generalizing t with
  | zero => exact .fail
  | succ depth ih =>
    refine .bind (admits.plain h) fun type => ?_
    cases scalar : t.isScalar with
    | true =>
      rw [if_pos rfl]
      split
      · exact admits.build (constBool_progress _)
      · exact admits.build (constBits_makes type _).progress
    | false =>
      rw [if_neg (by simp)]
      refine .bind (ih (admits.divides.fill t h scalar)) fun part => ?_
      exact admits.build (constComposite_makes type _).progress

mutual

theorem constant_relates (admits : Admits p typer good rel) : (value : ConstantValue) →
    ∀ {t : ShaderType}, good t → Relates rel (constant p typer value t)
  | .composite parts, t, h => by
    rw [constant]
    refine .bind (admits.plain h) fun type => ?_
    intro s id u ends
    obtain ⟨ts, s1, first, ends⟩ := ends_bind ends
    refine trans_of rel (((constituents_does p t _).acts : Keeps .inside rel _).leads s ts s1 first)
      ?_
    have parts := constants_relates admits parts (admits.divides.parts t _ h s ts s1 first)
    exact Relates.bind parts (fun ids =>
      admits.build (constComposite_makes type ids).progress) s1 id u ends
  | .bool _, t, h | .int _, t, h | .uint _, t, h | .float _, t, h => by
    rw [constant]
    exact filledConstant_relates admits _ 3 h

theorem constants_relates (admits : Admits p typer good rel) : (parts : List ConstantValue) →
    ∀ {ts : List ShaderType}, (∀ t ∈ ts, good t) → Relates rel (constants p typer parts ts)
  | [], _, _ | _ :: _, [], _ => .pure
  | part :: parts, t :: ts, h => by
    rw [constants]
    refine .bind (constant_relates admits part (h t mem_cons_self)) fun id => ?_
    have others := constants_relates admits parts fun u hu => h u (mem_cons_of_mem t hu)
    exact .bind others fun _ => .pure

end

theorem specConstant_relates (admits : Admits p typer good rel) {d : Symbol} (h : good d.type) :
    Relates rel (specConstant p typer d) := by
  have rest : ∀ type id, Relates (State.Sparing (Adorned (OwnNote id fun _ topic =>
      (topic, d.type.qualifier.layout.specId.map .literal)))) (do
      d.type.qualifier.layout.specId.forM fun n =>
        (decorateWith id .specId n : Codegen Unit)
      name id d.name
      return Binding.value id type : Codegen Binding) := fun type id => by
    refine .bind (.optionForM fun n found => sparing_lift (annotate_adorned ?_)) fun _ => ?_
    · refine ⟨fun _ => rfl, by simp, fun topic settles => ?_⟩
      cases settles
      simp [Option.mem_def.1 found]
    · exact .bind (sparing_lift (addName_adorned _)) fun _ => .pure
  refine .bind (admits.plain h) fun type => ?_
  split
  · rename_i parts _
    intro s binding u ends
    obtain ⟨ts, s1, first, ends⟩ := ends_bind ends
    refine trans_of rel
      (((constituents_does p _ _).acts : Keeps .inside rel _).leads s ts s1 first) ?_
    have parts := constants_relates admits parts (admits.divides.parts _ _ h s ts s1 first)
    refine Relates.bind parts (fun ids => ?_) s1 binding u ends
    exact admits.of_modest ((specComposite_brings type ids).modest (rest type))
  · exact admits.of_modest ((specBits_brings type _).modest (rest type))

theorem newBinding_relates (admits : Admits p typer good rel) (x : SymbolId) {d : Symbol}
    (h : good d.type) : Relates rel (newBinding p typer x d) := by
  unfold newBinding
  split
  · exact specConstant_relates admits h
  split
  · refine .bind (admits.plain h) fun type => ?_
    exact .bind (constant_relates admits _ h) fun _ => .pure
  split
  · refine .bind (.remember fun s => admits.modest _ _ (.of_same rfl rfl rfl rfl rfl)) fun _ => ?_
    refine .bind (admits.types _ h) fun type => admits.of_modest ?_
    exact (globalVariable_brings type _ _ none).modest fun var =>
      .bind (decorateObject_adorned var d.type p _) fun _ => .pure
  · refine .bind (admits.plain h) fun type => ?_
    refine .bind (admits.build (localVariable_progress _ type)) fun var => ?_
    refine .bind (.optionForM fun d hd => ?_) fun _ => .pure
    exact admits.build (decorate_progress var (Precision.isPlain hd))

end Bindings

end Codegen

/-! ## Types and what they enter -/

/-- Outside of any layout, getting the type enters types for these structures at most. -/
def TypeRequest.Keys (p : Program) (r : TypeRequest) (id : StructId) : Prop :=
  ¬ p.ScalarLengths r.type ∨ r.packing.isExplicit = false ∧ r.Inside p id

/-- From one state code generation comes to another, in which the id is the type for a type of the
program. -/
def State.Arrives (p : Program) (keys : StructId → Prop) (s u : State) (t : ShaderType)
    (packing : Packing) (rowMajor : Bool) (id : Ident) : Prop :=
  (Trace p s u ∧ (p.ScalarMemberLengths → s.SameKeys keys u)) ∧ Typed p u t packing rowMajor id

/-- The step keeps to the course, and gives the type for a type of the program. -/
def Yields (p : Program) (keys : StructId → Prop) (c : Codegen Ident) (t : ShaderType)
    (packing : Packing) (rowMajor : Bool) : Prop :=
  ∀ s id u, Ends c s id u → s.Regular p → s.Arrives p keys u t packing rowMajor id

theorem State.Arrives.mono {p : Program} {keys' : StructId → Prop} {rowMajor : Bool} {id : Ident}
    (h : s.Arrives p keys u t packing rowMajor id)
    (imp : p.ScalarMemberLengths → ∀ x, keys x → keys' x) :
    s.Arrives p keys' u t packing rowMajor id :=
  ⟨⟨h.1.1, fun lengths key plain other =>
    h.1.2 lengths key plain fun inside => other (imp lengths _ inside)⟩, h.2⟩

namespace Codegen

variable {p : Program} {typer : Typer} {size : ArraySize} {lastMember : Bool} {element : Ident}
  {ids : List Ident} {operands : List Operand} {op : Opcode} {form : TypeForm} {r : TypeRequest}

/-- What is known of a way to get types. -/
structure IsTyper (p : Program) (typer : Typer) : Prop where
  yields : ∀ r : TypeRequest, Yields p (r.Keys p) (typer r) r.type r.packing r.rowMajor
  scalar : ∀ r : TypeRequest, r.type.isScalar → Relates State.Modest (typer r)

theorem IsTyper.leads (h : IsTyper p typer) (r : TypeRequest) :
    Relates (State.Leads p fun _ => True) (typer r) := fun s id u ends regular => by
  obtain ⟨⟨trace, -⟩, -⟩ := h.yields r s id u ends regular
  exact ⟨trace, fun _ _ _ none => absurd trivial none⟩

theorem IsTyper.admits (h : IsTyper p typer) :
    Admits p typer (fun _ => True) (State.Leads p fun _ => True) :=
  ⟨divides_all, fun _ _ modest => modest.leads, fun r _ => h.leads r⟩

theorem IsTyper.admitsScalars (h : IsTyper p typer) :
    Admits p typer (fun t => t.isScalar) State.Modest :=
  ⟨divides_scalars, fun _ _ modest => modest, h.scalar⟩

theorem bindingOf_leads (h : IsTyper p typer) {x : SymbolId} {binding : Binding}
    (ends : Ends (bindingOf p typer x) s binding u) :
    s.Leads p (fun _ => ¬ p.IsScalar x) u ∧ u.bindings.lookup x = some binding := by
  replace ends := ends_get ends
  split at ends
  · obtain ⟨rfl, rfl⟩ := ends_pure ends
    exact ⟨refl_of _ _, ‹_›⟩
  rename_i unbound
  obtain ⟨d, s2, hsymbol, binding, s3, hnew, ends⟩ := ends_bind₂ ends
  obtain ⟨_, s4, hbind, ends⟩ := ends_bind ends
  obtain ⟨rfl, rfl⟩ := ends_pure ends
  cases hbind
  obtain ⟨found, rfl⟩ := symbol_ends hsymbol
  refine ⟨fun regular => ?_, lookup_cons_self⟩
  by_cases scalar : p.IsScalar x
  · have modest := newBinding_relates h.admitsScalars x (scalar _ found) _ binding s3 hnew
    refine ⟨.tail (.single (.modest modest)) (.bind fun _ => modest.bindings ▸ unbound), ?_⟩
    intro _ key _ _
    exact congrArg (lookup key) modest.structTypes
  · obtain ⟨trace, -⟩ := newBinding_relates h.admits x trivial _ binding s3 hnew regular
    refine ⟨trace.tail (.bind fun once => absurd once.scalar scalar), ?_⟩
    exact fun _ key _ inside => absurd scalar inside

/-! ## Arrays -/

theorem ensureFits_ends {fits : Bool} {a : Unit} (ends : Ends (ensureFits fits) s a u) :
    fits ∧ s = u := by
  unfold ensureFits at ends
  split at ends
  · exact ⟨‹_›, (ends_pure ends).2.symm⟩
  · cases ends

theorem arrayOf_yields (h : IsTyper p typer) {id : Ident} {stride : Option Nat}
    (ends : Ends (arrayOf p typer size element stride lastMember) s id u) (regular : s.Regular p) :
    (Trace p s u ∧ (p.ScalarMemberLengths →
      s.SameKeys (fun _ => ∃ x, size = .spec x ∧ ¬ p.IsScalar x) u)) ∧
    stride.all (· < UInt32.size) ∧
    (size = .unsized ∧ u.builder.TrueRuntimeArray element stride id ∨
      ∃ length, u.builder.HasLength size length ∧
      u.builder.TrueArray element length stride id) := by
  obtain ⟨_, _, ⟨fits, rfl⟩, ends⟩ := ends_then ensureFits_ends ends
  split at ends
  · rename_i n _
    obtain ⟨length, s1, first, ends⟩ := ends_bind ends
    obtain ⟨modest1, sized⟩ := (constInteger_makes 32 false n).lift first regular
    have regular1 := (State.Step.modest modest1).regular regular
    obtain ⟨modest2, array⟩ := (typeArray_makes element length stride).lift ends regular1
    have later := (modest2.builder regular1.tidy).2
    have tidy := (modest2.builder regular1.tidy).1
    refine ⟨(trans_of State.Modest modest1 modest2).leads regular, fits, .inr ⟨length, ?_, ?_⟩⟩
    · rintro _ ⟨⟩
      exact sized.later later
    · exact tidy.arrays _ _ _ _ array
  · rename_i x _
    obtain ⟨binding, s1, first, ends⟩ := ends_bind ends
    obtain ⟨trace, same⟩ := (bindingOf_leads h first).1 regular
    cases binding with
    | object => cases ends
    | value length type =>
      have regular1 := trace.regular regular
      obtain ⟨modest, array⟩ := (typeArray_makes element length stride).lift ends regular1
      have tidy := (modest.builder regular1.tidy).1
      refine ⟨⟨trace.tail (.modest modest), fun lengths key plain other => ?_⟩, fits,
        .inr ⟨length, (fun n sized => by cases sized), tidy.arrays _ _ _ _ array⟩⟩
      rw [modest.structTypes]
      exact same lengths key plain fun scalar => other ⟨x, rfl, scalar⟩
  · have made : ∀ {s' : State}, s'.Regular p →
        Ends (liftM (typeRuntimeArray element stride) : Codegen Ident) s' id u →
        s'.Modest u ∧ u.builder.TrueRuntimeArray element stride id := fun {s'} regular' ends => by
      obtain ⟨modest, array⟩ := (typeRuntimeArray_makes element stride).lift ends regular'
      exact ⟨modest, (modest.builder regular'.tidy).1.runtimeArrays _ _ _ array⟩
    split at ends
    · obtain ⟨_, s1, first, ends⟩ := ends_bind ends
      have modest1 := sparing_lift (require_progress (by decide)) s _ s1 first
      obtain ⟨modest2, array⟩ := made ((State.Step.modest modest1).regular regular) ends
      exact ⟨(trans_of State.Modest modest1 modest2).leads regular, fits, .inl ⟨rfl, array⟩⟩
    · obtain ⟨modest, array⟩ := made regular ends
      exact ⟨modest.leads regular, fits, .inl ⟨rfl, array⟩⟩

/-! ## Structures -/

theorem mapM_yields {f : α → Codegen Ident} {list : List α} {type : α → ShaderType} {row : α → Bool}
    (h : ∀ a ∈ list, Yields p keys (f a) (type a) packing (row a))
    (ends : Ends (list.mapM f) s ids u) (regular : s.Regular p) :
    (Trace p s u ∧ (p.ScalarMemberLengths → s.SameKeys keys u)) ∧ ids.length = list.length ∧
      ∀ (k : Nat) (a : α) (id : Ident), list[k]? = some a → ids[k]? = some id →
        Typed p u (type a) packing (row a) id := by
  induction list generalizing s ids with
  | nil =>
    obtain ⟨rfl, rfl⟩ := ends_pure ends
    exact ⟨⟨.refl, fun _ _ _ _ => rfl⟩, rfl, by simp⟩
  | cons a rest ih =>
    rw [mapM_cons] at ends
    obtain ⟨id, s1, first, others, s2, second, ends⟩ := ends_bind₂ ends
    obtain ⟨rfl, rfl⟩ := ends_pure ends
    obtain ⟨⟨trace1, same1⟩, typed1⟩ := h a mem_cons_self s id s1 first regular
    obtain ⟨⟨trace2, same2⟩, length, typed2⟩ :=
      ih (fun c hc => h c (mem_cons_of_mem a hc)) second (trace1.regular regular)
    refine ⟨⟨trace1.trans trace2, fun lengths => (same1 lengths).trans (same2 lengths)⟩,
      by simp [length], fun k c type' hc htype => ?_⟩
    cases k with
    | zero =>
      obtain rfl := Option.some.inj hc
      obtain rfl := Option.some.inj htype
      have regular1 := trace1.regular regular
      exact typed1.kept regular1.tidy (trace2.keeps regular1)
    | succ k => exact typed2 k c type' hc htype

theorem within_of_member (declared : p.struct? id = some decl) {q : StructMember × Nat}
    (mem : q ∈ p.presentMembers decl) {x : StructId}
    (inside : ∃ outer, q.1.type.structId? = some outer ∧ (x = outer ∨ p.Within x outer)) :
    p.Within x id := by
  obtain ⟨listed, present⟩ := mem_filter.1 mem
  obtain ⟨outer, isOuter, same | within⟩ := inside
  all_goals
    have held : p.Holds id outer := ⟨decl, q.1, declared,
      mem_of_getElem? (mem_zipIdx_iff_getElem?.1 listed), present, isOuter⟩
  · exact same ▸ .single held
  · exact within.tail held

theorem memberTypes_yields (h : IsTyper p typer) (declared : p.struct? id = some decl)
    (use : StructUse) (ends : Ends (memberTypes p typer decl use) s ids u) (regular : s.Regular p) :
    (Trace p s u ∧ (p.ScalarMemberLengths →
      s.SameKeys (fun x => use.packing.isExplicit = false ∧ p.Within x id) u)) ∧
    ids.length = (p.presentMembers decl).length ∧
      ∀ (k : Nat) (m : StructMember) (source : Nat) (type : Ident),
        (p.presentMembers decl)[k]? = some (m, source) → ids[k]? = some type →
        Typed p u m.type use.packing (m.type.isRowMajor use.rowMajor) type := by
  have each : ∀ q ∈ p.presentMembers decl, Yields p
      (fun x => use.packing.isExplicit = false ∧ p.Within x id)
      (typer { type := q.1.type, packing := use.packing, rowMajor :=
      q.1.type.isRowMajor use.rowMajor
               lastMember := use.qualifier.storage == .buffer && q.2 == decl.members.length - 1 })
      q.1.type use.packing (q.1.type.isRowMajor use.rowMajor) := by
    intro q mem s id' u ends regular
    refine (h.yields _ s id' u ends regular).mono fun lengths x keys => ?_
    have member := mem_of_getElem? (mem_zipIdx_iff_getElem?.1 (mem_filter.1 mem).1)
    rcases keys with irregular | ⟨packing, inside⟩
    · exact absurd (lengths id decl declared q.1 member) irregular
    · exact ⟨packing, within_of_member declared mem inside⟩
  obtain ⟨course, length, typed⟩ := mapM_yields each ends regular
  exact ⟨course, length, fun k m source type => typed k (m, source) type⟩

theorem newStructType_yields (h : IsTyper p typer) (declared : p.struct? id = some decl)
    (use : StructUse) (arrays : t.arrays = []) (isStruct : t.structId? = some id)
    (ends : Ends (newStructType p typer id decl use) s type u) (regular : s.Regular p) :
    s.Arrives p (fun x => use.packing.isExplicit = false ∧ p.Within x id) u t use.packing
    use.rowMajor
      type ∧ id ∈ u.typedStructs := by
  obtain ⟨_, s1, enter, members, s2, types, ends⟩ := ends_bind₂ ends
  obtain ⟨_, s3, number, ends⟩ := ends_bind ends
  obtain ⟨_, s4, ⟨fits, rfl⟩, ends⟩ := ends_then ensureFits_ends ends
  obtain ⟨type, s5, makes, _, s6, decorates, ends⟩ := ends_bind₂ ends
  obtain ⟨rfl, rfl⟩ := ends_pure ends
  cases enter
  cases number
  have entered : s.Modest { s with underway := id :: s.underway } := .of_same rfl rfl rfl rfl rfl
  have regular1 := (State.Step.modest entered).regular regular
  obtain ⟨⟨trace, same⟩, count, typed⟩ := memberTypes_yields h declared use types regular1
  have regular2 := trace.regular regular1
  obtain ⟨b1, first, rfl⟩ := ends_lift Emit makes
  obtain ⟨b2, second, rfl⟩ := ends_lift Emit decorates
  obtain ⟨tidy, later, form, notes⟩ := structure_makes first second regular2.tidy
  let numbered : State := { s2 with
    underway := s2.underway.filter (· != id)
    memberTables := (id, p.numberMembers 0 decl.members) :: s2.memberTables }
  have made : numbered.Modest { numbered with builder := b2 } :=
    ⟨fun _ => ⟨tidy, later⟩, rfl, rfl, rfl, rfl⟩
  have rest : Trace p s2 { numbered with builder := b2 } :=
    .tail (.single (.number declared)) (.modest made)
  have keeps := rest.keeps regular2
  refine ⟨⟨⟨.head (.modest entered) (trace.trans rest), same⟩, ?_⟩, mem_cons_self⟩
  have fits : use.packing.isExplicit → p.layoutFits use.packing decl use.rowMajor := by
    simpa [imp_iff_not_or] using fits
  refine .struct arrays isStruct declared fits form count (fun k m source type present found => ?_)
    notes
  exact (typed k m source type present found).kept regular2.tidy keeps

theorem structType_yields (h : IsTyper p typer) (use : StructUse)
    (arrays : t.arrays = []) (isStruct : t.structId? = some id)
    (ends : Ends (structType p typer id use) s type u) (regular : s.Regular p) :
    s.Arrives p (fun x => use.packing.isExplicit = false ∧ (x = id ∨ p.Within x id)) u t use.packing
      use.rowMajor type ∧ id ∈ u.typedStructs ∧
      (use.isShared → u.structTypes.lookup (use.key p id) = some type) := by
  obtain ⟨decl, s1, ⟨declared, rfl⟩, rest⟩ := ends_then struct_ends ends
  replace rest := ends_get rest
  split at rest
  · rename_i found _
    obtain ⟨rfl, rfl⟩ := ends_pure rest
    refine ⟨⟨⟨.refl, fun _ _ _ _ => rfl⟩, ?_⟩, regular.listed _ _ found, fun _ => found⟩
    exact (regular.typed _ _ found).of_struct rfl rfl arrays isStruct
  · rename_i missing
    obtain ⟨type, s3, makes, _, s4, push, rest⟩ := ends_bind₂ rest
    obtain ⟨rfl, rfl⟩ := ends_pure rest
    cases push
    obtain ⟨⟨⟨trace, same⟩, typed⟩, listed⟩ :=
      newStructType_yields h declared use arrays isStruct makes regular
    have irreflexive : ¬ p.Within id id :=
      (typed.acc id isStruct).transGen.rec fun x _ ih self => ih x self self
    have regular3 := trace.regular regular
    have pushed : State.Step p s3 { s3 with structTypes :=
      (use.key p id, type) :: s3.structTypes } := by
      refine .struct (typed.of_struct arrays isStruct rfl rfl) listed fun lengths plain => ?_
      rw [same lengths (use.key p id) plain fun ⟨_, within⟩ => irreflexive within]
      exact Option.eq_none_iff_forall_ne_some.2 fun other found => missing other found
    refine ⟨⟨⟨trace.tail pushed, fun lengths key plain other => ?_⟩,
      typed.kept regular3.tidy (pushed.keeps regular3)⟩, listed, fun _ => lookup_cons_self⟩
    have different : key ≠ use.key p id := by
      rintro rfl
      exact other ⟨plain, .inl rfl⟩
    refine (lookup_cons_of_ne different _ _).trans (same lengths key plain ?_)
    exact fun ⟨packing, within⟩ => other ⟨packing, .inr within⟩
  · rename_i unshared
    obtain ⟨arrives, listed⟩ := newStructType_yields h declared use arrays isStruct rest regular
    exact ⟨arrives.mono fun _ x inside => ⟨inside.1, .inr inside.2⟩, listed, by simp [unshared]⟩

/-! ## References -/

theorem referentUse_isExplicit (decl : StructDecl) :
    decl.referentUse.packing.isExplicit = true := by
  unfold StructDecl.referentUse
  dsimp only
  split
  · assumption
  · rfl

theorem targetType_leads (h : IsTyper p typer) (id : StructId) :
    Relates (State.Leads p fun _ => False) (targetType p typer id) := by
  intro s type u ends regular
  obtain ⟨decl, s1, ⟨declared, rfl⟩, ends⟩ := ends_then struct_ends ends
  obtain ⟨⟨⟨trace, same⟩, -⟩, -⟩ :=
    structType_yields h decl.referentUse (t := { basic := .struct id })
    rfl rfl ends regular
  refine ⟨trace, fun lengths key plain _ => same lengths key plain fun ⟨packing, _⟩ => ?_⟩
  simp [referentUse_isExplicit] at packing

theorem setReference_onward {r : ReferencePointer}
    (same : ∀ r', s.references.lookup id = some r' → r'.type = r.type) :
    s.Leads p keys { s with references := (id, r) :: s.references } :=
  fun _ => ⟨.single (.refer same), fun _ _ _ _ => rfl⟩

theorem declareReference_leads (h : IsTyper p typer)
    (ends : Ends (declareReference p typer id) s type u) :
    s.Leads p (fun _ => False) u ∧ u.references.lookup id = some (.declared type) := by
  obtain ⟨referent, s1, first, ends⟩ := ends_bind ends
  have target := targetType_leads h id s referent s1 first
  replace ends := ends_get ends
  -- In each case a pointer type is found or made, and then entered.
  have entered : ∀ {s2 : State} {type' : Ident}, s1.Modest s2 →
      (∀ r, s1.references.lookup id = some r → r.type = type') →
      Ends (do setReference id (.declared type'); pure type' : Codegen Ident) s2 type u →
      s.Leads p (fun _ => False) u ∧ u.references.lookup id = some (.declared type) := by
    intro s2 type' modest same ends
    obtain ⟨_, s3, push, ends⟩ := ends_bind ends
    obtain ⟨rfl, rfl⟩ := ends_pure ends
    cases push
    refine ⟨trans_of _ target (trans_of _ modest.leads (setReference_onward fun r found => ?_)),
      lookup_cons_self⟩
    rw [modest.references] at found
    exact same r found
  have told : ∀ {known r : ReferencePointer}, s1.references.lookup id = some known →
      s1.references.lookup id = some r → r.type = known.type :=
    fun found other => Option.some.inj (found.symm.trans other) ▸ rfl
  split at ends
  · rename_i found
    obtain ⟨_, s2, complete, ends⟩ := ends_bind ends
    exact entered (sparing_lift (completePointer_progress _ _) s1 _ s2 complete)
      (fun _ => told found) ends
  · rename_i found
    exact entered (refl_of State.Modest s1) (fun _ => told found) ends
  · rename_i missing
    obtain ⟨type', s2, made, ends⟩ := ends_bind ends
    exact entered (sparing_lift (typePointer_progress _ _) s1 _ s2 made) (by simp [missing]) ends

theorem referenceType_yields (h : IsTyper p typer) (arrays : t.arrays = [])
    (basic : t.basic = .reference id) (packing : Packing) (rowMajor : Bool) :
    Yields p (fun _ => False) (referenceType p typer id) t packing rowMajor := by
  intro s type u ends regular
  obtain ⟨_, s1, first, ends⟩ := ends_bind ends
  have modest := sparing_lift (progress_of_calm usePhysicalAddresses_adorned) s _ s1 first
  replace ends := ends_get ends
  split at ends
  · rename_i found
    obtain ⟨rfl, rfl⟩ := ends_pure ends
    exact ⟨modest.leads regular, .reference arrays basic found⟩
  rename_i missing
  split at ends
  · obtain ⟨type, s2, second, _, s3, push, ends⟩ := ends_bind₂ ends
    obtain ⟨rfl, rfl⟩ := ends_pure ends
    cases push
    have announced := sparing_lift (announcePointer_progress _) s1 _ s2 second
    refine ⟨trans_of (State.Leads p _) (trans_of State.Modest modest announced).leads
      (setReference_onward fun r found => ?_) regular, ?_⟩
    · simp [announced.references, missing] at found
    · exact .reference (r := .announced type) arrays basic lookup_cons_self
  · obtain ⟨leads, found⟩ := declareReference_leads h ends
    exact ⟨trans_of _ modest.leads leads regular, .reference (r := .declared type)
      arrays basic found⟩

/-! ## Types without dimensions -/

theorem numberType_modest {c : Emit Ident}
    (h : Builder.Makes c fun id b => b.HasType op operands form id) {id : Ident}
    (ends : Ends (do shapedType t (← c) : Codegen Ident) s id u) :
    s.Modest u ∧ (s.builder.Tidy → ∃ scalar, u.builder.HasType op operands form scalar ∧
      u.builder.Shaped t scalar id) := by
  obtain ⟨scalar, s1, ⟨b1, first, rfl⟩, shapes⟩ := ends_then (ends_lift Emit) ends
  obtain ⟨b2, second, rfl⟩ := ends_lift Emit shapes
  have shaped := shapedType_makes t scalar
  refine ⟨⟨trans_of Progress (h.progress _ _ _ first) (shaped.progress _ _ _ second), rfl, rfl,
    rfl, rfl⟩, fun tidy => ?_⟩
  obtain ⟨tidy1, -, type⟩ := h _ scalar b1 first tidy
  obtain ⟨-, later, shape⟩ := shaped b1 id b2 second tidy1
  exact ⟨scalar, type.later later, shape⟩

theorem elementType_number
    (basic : r.type.basic.declaration? r.packing.isExplicit = some (op, operands, form))
    {id : Ident} (ends : Ends (elementType p typer r) s id u) :
    s.Modest u ∧ (s.builder.Tidy → ∃ scalar, u.builder.HasType op operands form scalar ∧
      u.builder.Shaped r.type scalar id) := by
  unfold elementType at ends
  cases number : r.type.basic <;> simp only [number, BasicType.declaration?] at basic ends
  case bool =>
    by_cases explicit : r.packing.isExplicit = true
    · rw [if_pos explicit] at basic
      cases basic
      rw [if_pos explicit] at ends
      exact numberType_modest (typeInt_makes 32 false) ends
    · rw [if_neg explicit] at basic
      cases basic
      rw [if_neg explicit] at ends
      exact numberType_modest typeBool_makes ends
  all_goals cases basic
  case int width => exact numberType_modest (typeInt_makes width true) ends
  case uint width => exact numberType_modest (typeInt_makes width false) ends
  case float width => exact numberType_modest (typeFloat_makes width) ends

theorem elementType_yields (h : IsTyper p typer) (r : TypeRequest) :
    Yields p (fun x => r.packing.isExplicit = false ∧ r.Inside p x) (elementType p typer r)
      { r.type with arrays := [] } r.packing r.rowMajor := by
  intro s id u ends regular
  cases number : r.type.basic.declaration? r.packing.isExplicit with
  | some declaration =>
    obtain ⟨modest, typed⟩ := elementType_number number ends
    obtain ⟨scalar, type, shaped⟩ := typed regular.tidy
    exact ⟨modest.leads regular, .number rfl number type shaped⟩
  | none =>
    have handle : ∀ {c : Emit Ident}, Relates Progress c → r.type.isOpaque = true →
        ∀ {s1 : State}, s.Modest s1 → Ends (liftM c : Codegen Ident) s1 id u →
        s.Arrives p (fun x => r.packing.isExplicit = false ∧ r.Inside p x) u
          { r.type with arrays := [] } r.packing r.rowMajor id :=
      fun progress isOpaque _ before ends =>
        ⟨(trans_of State.Modest before (sparing_lift progress _ _ _ ends)).leads regular,
          .handle rfl isOpaque⟩
    have structure' : ∀ id', r.type.structId? = some id' →
        Ends (structType p typer id' (r.structUse false)) s id u →
        s.Arrives p (fun x => r.packing.isExplicit = false ∧ r.Inside p x) u
          { r.type with arrays := [] } r.packing r.rowMajor id := by
      intro id' isStruct ends
      have typed := structType_yields h (r.structUse false) (t := { r.type with arrays := [] }) rfl
        isStruct ends regular
      exact typed.1.mono fun _ x inside => ⟨inside.1, id', isStruct, inside.2⟩
    unfold elementType at ends
    cases basic : r.type.basic <;> simp only [basic] at ends
    case bool =>
      simp only [basic, BasicType.declaration?] at number
      split at number <;> cases number
    case int | uint | float => simp [basic, BasicType.declaration?] at number
    case void =>
      obtain ⟨modest, type⟩ := typeVoid_makes.lift ends regular
      exact ⟨modest.leads regular, .void rfl basic type⟩
    case sampler =>
      exact handle (samplerType_progress _ _) (by simp [ShaderType.isOpaque, basic])
        (refl_of State.Modest s) ends
    case accelerationStructure =>
      exact handle (handleType_makes _ .accelerationStructure rfl rfl).progress
        (by simp [ShaderType.isOpaque, basic])
        (refl_of State.Modest s) ends
    case rayQuery =>
      obtain ⟨_, s1, first, ends⟩ := ends_bind ends
      exact handle (handleType_makes _ .rayQuery rfl rfl).progress
        (by simp [ShaderType.isOpaque, basic])
        (sparing_lift (require_progress (by decide)) s _ s1 first) ends
    case struct id' | block id' => exact structure' id' (by simp [ShaderType.structId?, basic]) ends
    case reference id' =>
      have typed := referenceType_yields h (t := { r.type with arrays := [] }) rfl basic r.packing
        r.rowMajor s id u ends regular
      exact typed.mono fun _ _ => False.elim

/-! ## All types -/

theorem arrayOver_yields (h : IsTyper p typer) {inner : List ArraySize} {s1 : State} {id : Ident}
    (regular : s.Regular p)
    (typed : s.Arrives p (fun x => (∃ y, ArraySize.spec y ∈ inner ∧ ¬ p.IsScalar y) ∨
      r.packing.isExplicit = false ∧ r.Inside p x) s1 { r.type with arrays := inner } r.packing
      r.rowMajor element)
    (ends : Ends
    (arrayOf p typer size element (arrayStride? p r { r.type with arrays := size :: inner })
      lastMember) s1 id u) :
    s.Arrives p (fun x => (∃ y, ArraySize.spec y ∈ size :: inner ∧ ¬ p.IsScalar y) ∨
      r.packing.isExplicit = false ∧ r.Inside p x) u { r.type with arrays := size :: inner }
      r.packing
      r.rowMajor id := by
  obtain ⟨⟨trace, same⟩, typed⟩ := typed
  have regular1 := trace.regular regular
  obtain ⟨⟨trace', same'⟩, fits, array⟩ := arrayOf_yields h ends regular1
  have element := typed.kept regular1.tidy (trace'.keeps regular1)
  refine ⟨⟨trace.trans trace', fun lengths key plain other => ?_⟩, ?_⟩
  · refine (same' lengths key plain ?_).trans (same lengths key plain ?_)
    · exact fun ⟨y, isSize, irregular⟩ => other (.inl ⟨y, by simp [isSize], irregular⟩)
    · rintro (⟨y, mem, irregular⟩ | inside)
      · exact other (.inl ⟨y, mem_cons_of_mem size mem, irregular⟩)
      · exact other (.inr inside)
  · rcases array with ⟨rfl, array⟩ | ⟨length, sized, array⟩
    · exact .runtimeArray rfl element fits array
    · exact .array rfl element fits sized array

theorem typeWithDimensions_yields (h : IsTyper p typer) (r : TypeRequest)
    (dimensions : List ArraySize)
    (lastMember : Bool) : Yields p (fun x => (∃ y, ArraySize.spec y ∈ dimensions ∧ ¬ p.IsScalar y) ∨
        r.packing.isExplicit = false ∧ r.Inside p x)
      (typeWithDimensions p typer r dimensions lastMember) { r.type with arrays := dimensions }
      r.packing r.rowMajor := by
  intro s id u ends regular
  induction dimensions generalizing lastMember id u with
  | nil => exact (elementType_yields h r s id u ends regular).mono fun _ _ => .inr
  | cons size inner ih =>
    unfold typeWithDimensions at ends
    split at ends
    · rename_i id' isStruct
      obtain ⟨element, s1, first, ends⟩ := ends_bind ends
      have typed := structType_yields h (r.structUse true) (t := { r.type with arrays := [] }) rfl
        isStruct first regular
      refine arrayOver_yields h regular (typed.1.mono fun _ x inside => ?_) ends
      exact .inr ⟨inside.1, id', isStruct, inside.2⟩
    · obtain ⟨element, s1, first, ends⟩ := ends_bind ends
      exact arrayOver_yields h regular (ih false element s1 first) ends

theorem declaration_of_isScalar (scalar : t.isScalar) (explicit : Bool) :
    t.arrays = [] ∧ ∃ d, t.basic.declaration? explicit = some d := by
  simp only [ShaderType.isScalar, ShaderType.isArray, Bool.and_eq_true] at scalar
  refine ⟨by simpa using scalar.1.1.1, ?_⟩
  cases basic : t.basic <;> simp_all [BasicType.declaration?]
  cases explicit <;> simp

theorem isTyper_typeWithin (p : Program) (depth : Nat) : IsTyper p (typeWithin p depth) := by
  induction depth with
  | zero => exact ⟨(fun r s id u ends => by cases ends), fun r _ s id u ends => by cases ends⟩
  | succ depth ih =>
    refine ⟨fun r s id u ends regular => ?_, fun r scalar s id u ends => ?_⟩
    · have typed := typeWithDimensions_yields ih r r.type.arrays r.lastMember s id u ends regular
      refine typed.mono fun _ x keys => ?_
      rcases keys with ⟨y, mem, irregular⟩ | inside
      · exact .inl fun scalars => irregular (scalars y mem)
      · exact .inr inside
    · obtain ⟨arrays, declaration, number⟩ := declaration_of_isScalar scalar r.packing.isExplicit
      rw [typeWithin, typeStep, arrays] at ends
      exact (elementType_number number ends).1

end Codegen

end ShaderGen
