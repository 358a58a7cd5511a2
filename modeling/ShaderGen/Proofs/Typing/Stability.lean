import ShaderGen.Proofs.Typing.Run

/-!
# One type for each shape

A step `Settles` if what it gives is fixed once it has been given: wherever code generation comes to
afterwards, the same step gives the same. Numbers, vectors and matrices are found among the
declarations, arrays and handles in the tables of the builder, structures and references in what
code generation remembers, and the length of an array is bound once. So the type of the values of a
type is settled, unless one of its lengths is a parameter, which every function binds anew
(`Codegen.valueType_settles`). Types of different shape differ in the forms of their declarations.
-/

namespace ShaderGen

open Builder List Program
open Steps (Ends ends_bind ends_pure)

variable {p : Program} {α β : Type} {operands : List Operand} {k n : Nat} {op : Opcode}
  {r : TypeRequest} {size : ArraySize} {length : Ident} {form : TypeForm} {basic : BasicType}

/-- What the step gives has a property that lasts and that only one thing can have at a time. -/
structure Fixes (p : Program) (c : Codegen α) (post : α → State → Prop) : Prop where
  makes : ∀ s a u, Ends c s a u → s.Regular p → post a u
  lasts : ∀ a s t, s.Regular p → Trace p s t → post a s → post a t
  unique : ∀ s a a', post a s → post a' s → a = a'

/-- The step keeps to the course, and what it gives is fixed once it has been given. -/
structure Settles (p : Program) (c : Codegen α) : Prop where
  proceeds : Proceeds p c
  fixed : ∃ post, Fixes p c post

namespace Settles

variable {x : Codegen α} {f : α → Codegen β}

theorem agree (h : Settles p x) {s s' t t' v : State} {a a' : α} (first : Ends x s a s')
    (second : Ends x t a' t') (regular : s.Regular p) (regular' : t.Regular p)
    (after : Trace p s' v) (after' : Trace p t' v) : a = a' := by
  obtain ⟨proceeds, post, fixes⟩ := h
  have regular1 := (proceeds s a s' first regular).regular regular
  have regular2 := (proceeds t a' t' second regular').regular regular'
  exact fixes.unique v a a' (fixes.lasts a s' v regular1 after (fixes.makes s a s' first regular))
    (fixes.lasts a' t' v regular2 after' (fixes.makes t a' t' second regular'))

theorem pure (a : α) : Settles p (Pure.pure a : Codegen α) := by
  refine ⟨.pure, fun r _ => r = a, fun s r u ends _ => ?_, fun _ _ _ _ _ same => same,
    fun _ r r' same same' => same.trans same'.symm⟩
  exact (ends_pure ends).1

theorem fail (cause : Cause) : Settles p (Codegen.fail cause : Codegen α) :=
  ⟨.fail, fun _ _ => False, (fun _ _ _ ends => by cases ends), fun _ _ _ _ _ no => no,
    fun _ _ _ no => False.elim no⟩

theorem unit {c : Codegen Unit} (h : Proceeds p c) : Settles p c :=
  ⟨h, fun _ _ => True, fun _ _ _ _ _ => trivial, fun _ _ _ _ _ _ => trivial, fun _ _ _ _ _ => rfl⟩

theorem bind (hx : Settles p x) (hf : ∀ a, Settles p (f a)) : Settles p (x >>= f) := by
  obtain ⟨px, post, fixes⟩ := hx
  choose post' fixes' using fun a => (hf a).fixed
  refine ⟨.bind px fun a => (hf a).proceeds, fun r u => ∃ a, post a u ∧ post' a r u,
    fun s r u ends regular => ?_, ?_, ?_⟩
  · obtain ⟨a, s1, first, second⟩ := ends_bind ends
    have regular1 := (px s a s1 first regular).regular regular
    have trace := (hf a).proceeds s1 r u second regular1
    refine ⟨a, fixes.lasts a s1 u regular1 trace (fixes.makes s a s1 first regular), ?_⟩
    exact (fixes' a).makes s1 r u second regular1
  · rintro r s t regular trace ⟨a, h, g⟩
    exact ⟨a, fixes.lasts a s t regular trace h, (fixes' a).lasts r s t regular trace g⟩
  · rintro s r r' ⟨a, h, g⟩ ⟨a', h', g'⟩
    obtain rfl := fixes.unique s a a' h h'
    exact (fixes' a).unique s r r' g g'

/-- A building step that makes what later builders have too, and have only once. -/
theorem build {m : Type → Type} [Monad m] [MonadLiftT m Codegen] [Steps m Builder]
    [Embeds m Codegen State] {c : m α} {post : α → Builder → Prop} (made : Builder.Makes c post)
    (later : ∀ a (b b' : Builder), b.Later b' → post a b → post a b')
    (unique : ∀ b a a', post a b → post a' b → a = a') : Settles p (liftM c : Codegen α) :=
  ⟨Codegen.build_proceeds made.progress, fun a u => post a u.builder,
    fun _ _ _ ends regular => (made.lift ends regular).2,
    fun a _ _ regular trace => later a _ _ (trace.keeps regular).later,
    fun s a a' => unique s.builder a a'⟩

end Settles

namespace Codegen

/-! ## Building types -/

variable {c : Emit Ident}

theorem declared_settles (made : Builder.Makes c fun id b => b.HasType op operands form id) :
    Settles p (liftM c : Codegen Ident) :=
  .build made (fun _ _ _ later type => type.later later)
    fun _ _ _ type type' => type.finds.unique type'.finds

theorem vector_settles (component : Ident) (count : Nat) :
    Settles p (liftM (typeVector component count) : Codegen Ident) := by
  refine .build (typeVector_makes component count)
    (fun _ _ _ later vector => vector.later later) fun b id id' vector vector' => ?_
  unfold VectorOf at vector vector'
  by_cases single : count ≤ 1
  · rw [if_pos single] at vector vector'
    exact vector.trans vector'.symm
  · rw [if_neg single] at vector vector'
    exact vector.finds.unique vector'.finds

theorem lift_bind (x : Emit α) (f : α → Emit β) :
    (liftM (x >>= f) : Codegen β) = (do let a ← (liftM x : Codegen α); liftM (f a)) := rfl

theorem shapedType_settles (t : ShaderType) (scalar : Ident) :
    Settles p (liftM (shapedType t scalar) : Codegen Ident) := by
  unfold shapedType
  split
  · rw [lift_bind]
    exact .bind (vector_settles _ _) fun column => declared_settles (typeMatrix_makes column _)
  · exact vector_settles _ _

theorem number_settles
    (made : Builder.Makes c fun id b => b.HasType op operands form id) (t : ShaderType) :
    Settles p (do shapedType t (← c) : Codegen Ident) :=
  .bind (declared_settles made) (shapedType_settles t)

theorem sampledType_settles (t : SampledType) :
    Settles p (liftM (sampledType t) : Codegen Ident) := by
  cases t
  · exact declared_settles (typeFloat_makes 32)
  · exact declared_settles (typeInt_makes 32 true)
  · exact declared_settles (typeInt_makes 32 false)

theorem samplerType_settles (s : Sampler) (format : ImageFormat) :
    Settles p (liftM (samplerType s format) : Codegen Ident) := by
  unfold samplerType
  split
  · exact declared_settles typeSampler_makes
  · rw [lift_bind]
    refine .bind (sampledType_settles _) fun sampled => ?_
    rw [lift_bind]
    refine .bind (.unit (require_proceeds (Sampler.requirements_general _))) fun _ => ?_
    rw [lift_bind]
    refine .bind (.unit (require_proceeds (ImageFormat.requirements_general _))) fun _ => ?_
    rw [lift_bind]
    refine .bind (declared_settles (typeImage_makes _)) fun image => ?_
    split
    · exact declared_settles (typeSampledImage_makes image)
    · exact .pure image

theorem handle_settles (new : form.Spells op [])
    (rigid : form.isRigid) : Settles p (liftM (handleType op form) : Codegen Ident) :=
  .build (handleType_makes op form new rigid)
    (fun _ _ _ later found => later.handleTypes _ _ found)
    fun _ _ _ found found' => Option.some.inj (found.symm.trans found')

/-! ## What is remembered -/

variable {typer : Typer}

/-- A symbol that is bound once. -/
theorem bindingOf_settles (h : IsTyper p typer) {x : SymbolId} (once : p.BoundOnce x) :
    Settles p (bindingOf p typer x) := by
  refine ⟨fun _ _ _ ends => (bindingOf_leads h ends).1.onward,
    fun binding u => u.bindings.lookup x = some binding,
    fun _ _ _ ends _ => (bindingOf_leads h ends).2, fun _ _ _ _ trace => trace.binding once,
    fun _ _ _ found found' => ?_⟩
  exact Option.some.inj (found.symm.trans found')

theorem structType_settles (h : IsTyper p typer) (lengths : p.ScalarMemberLengths) (id : StructId)
    {use : StructUse} (shared : use.isShared) (plain : use.packing.isExplicit = false) :
    Settles p (structType p typer id use) := by
  have yields := fun {s u type} => @structType_yields type s u id { basic := .struct id }
    p typer h use rfl rfl
  refine ⟨fun _ _ _ ends regular => (yields ends regular).1.1.1,
    fun type u => u.structTypes.lookup (use.key p id) = some type,
    fun _ _ _ ends regular => (yields ends regular).2.2 shared,
    fun _ _ _ _ trace => trace.structType lengths plain, fun _ _ _ found found' => ?_⟩
  exact Option.some.inj (found.symm.trans found')

theorem referenceType_settles (h : IsTyper p typer) (id : StructId) :
    Settles p (referenceType p typer id) := by
  refine ⟨fun s type u ends regular =>
    (referenceType_yields h (t := { basic := .reference id }) rfl rfl
    .none false s type u ends regular).1.1,
    fun type u => ∃ r, u.references.lookup id = some r ∧ r.type = type, ?_, ?_, ?_⟩
  · intro s type u ends regular
    obtain ⟨-, typed⟩ := referenceType_yields h (t := { basic := .reference id }) rfl rfl
      .none false
      s type u ends regular
    exact typed.of_reference rfl rfl
  · rintro _ s t regular trace ⟨r, found, rfl⟩
    obtain ⟨r', found', same⟩ := (trace.keeps regular).references id r found
    exact ⟨r', found', same⟩
  · rintro s _ _ ⟨r, found, rfl⟩ ⟨r', found', rfl⟩
    rw [Option.some.inj (found.symm.trans found')]

/-! ## Types -/

theorem elementType_settles (h : IsTyper p typer) (lengths : p.ScalarMemberLengths)
    (shared : r.type.qualifier.changesMembers = false) (plain : r.packing.isExplicit = false) :
    Settles p (elementType p typer r) := by
  unfold elementType
  split
  case h_7 | h_8 =>
    refine structType_settles h lengths _ ?_ plain
    simp [StructUse.isShared, TypeRequest.structUse, shared]
  · exact declared_settles typeVoid_makes
  · rw [if_neg (by simp [plain])]
    exact number_settles typeBool_makes r.type
  · exact number_settles (typeInt_makes _ true) r.type
  · exact number_settles (typeInt_makes _ false) r.type
  · exact number_settles (typeFloat_makes _) r.type
  · exact samplerType_settles _ _
  · exact handle_settles rfl rfl
  · exact .bind (.unit (require_proceeds (by decide))) fun _ => handle_settles rfl rfl
  · exact referenceType_settles h _

theorem array_settles (element length : Ident) (stride : Option Nat) :
    Settles p (liftM (typeArray element length stride) : Codegen Ident) :=
  .build (typeArray_makes element length stride)
    (fun _ _ _ later found => later.arrayTypes _ _ found)
    fun _ _ _ found found' => Option.some.inj (found.symm.trans found')

theorem constInteger_settles (width : Nat) (signed : Bool) (bits : Nat) :
    Settles p (liftM (typeInt width signed >>= fun type => constBits type bits) : Codegen Ident) :=
  .build (constInteger_makes width signed bits) (fun _ _ _ later integer => integer.later later)
    fun _ _ _ => HasInteger.unique

theorem ensureFits_settles (fits : Bool) : Settles p (ensureFits fits) :=
  .unit fun s _ _ ends => (ensureFits_ends ends).2 ▸ refl_of (State.Onward p) s

theorem arrayOf_settles (h : IsTyper p typer)
    (once : ∀ x, size = .spec x → p.BoundOnce x) (element : Ident) (stride : Option Nat)
    (lastMember : Bool) : Settles p (arrayOf p typer size element stride lastMember) := by
  have runtime : Settles p (liftM (typeRuntimeArray element stride) : Codegen Ident) :=
    .build (typeRuntimeArray_makes element stride)
      (fun _ _ _ later found => later.runtimeArrayTypes _ _ found)
      fun _ _ _ found found' => Option.some.inj (found.symm.trans found')
  refine .bind (ensureFits_settles _) fun _ => ?_
  split
  · exact .bind (constInteger_settles 32 false _) fun length => array_settles _ length _
  · rename_i x
    refine .bind (bindingOf_settles h (once x rfl)) fun binding => ?_
    cases binding with
    | value length type => exact array_settles _ length _
    | object => exact .fail _
  · split
    · exact .bind (.unit (require_proceeds (by decide))) fun _ => runtime
    · exact runtime

theorem typeWithDimensions_settles (h : IsTyper p typer) (lengths : p.ScalarMemberLengths)
    (shared : r.type.qualifier.changesMembers = false) (plain : r.packing.isExplicit = false)
    {dimensions : List ArraySize} (once : ∀ x, ArraySize.spec x ∈ dimensions → p.BoundOnce x)
    (lastMember : Bool) : Settles p (typeWithDimensions p typer r dimensions lastMember) := by
  induction dimensions generalizing lastMember with
  | nil => exact elementType_settles h lengths shared plain
  | cons size inner ih =>
    have array : ∀ element, Settles p (arrayOf p typer size element
        (arrayStride? p r { r.type with arrays := size :: inner }) lastMember) :=
      fun element => arrayOf_settles h (fun x isSize => once x (by simp [isSize]))
      element _ lastMember
    unfold typeWithDimensions
    split
    · refine .bind (structType_settles h lengths _ ?_ plain) array
      simp [StructUse.isShared, TypeRequest.structUse, shared]
    · exact .bind (ih (fun x mem => once x (mem_cons_of_mem size mem)) false) array

/-- The type of the values of a type is fixed once it has been given, if its lengths are bound once.
-/
theorem valueType_settles (lengths : p.ScalarMemberLengths) {t : ShaderType}
    (once : ∀ x, ArraySize.spec x ∈ t.arrays → p.BoundOnce x) : Settles p (valueType p t) :=
  typeWithDimensions_settles (isTyper_typeWithin p _) lengths rfl rfl once false

/-! ## Types of the same shape -/

theorem typeVector_congr (component : Ident) (same : max n 1 = max k 1) :
    typeVector component n = typeVector component k := by
  by_cases equal : n = k
  · rw [equal]
  · have small : n ≤ 1 ∧ k ≤ 1 := by omega
    unfold typeVector
    rw [if_pos small.1, if_pos small.2]

theorem typeWithDimensions_congr (plain : r.packing.isExplicit = false)
    (same : max n 1 = max r.type.vectorSize 1) (dimensions : List ArraySize) (lastMember : Bool) :
    typeWithDimensions p typer { r with type.vectorSize := n } dimensions lastMember =
      typeWithDimensions p typer r dimensions lastMember := by
  have shaped : ∀ scalar, shapedType { r.type with vectorSize := n } scalar = shapedType r.type
    scalar := by
    intro scalar
    unfold shapedType
    rw [typeVector_congr scalar same]
  induction dimensions generalizing lastMember with
  | nil =>
    unfold typeWithDimensions elementType
    simp only [shaped]
    rfl
  | cons size inner ih =>
    have stride : ∀ t, arrayStride? p r t = none := fun t => by simp [arrayStride?, plain]
    have stride' : ∀ t, arrayStride? p { r with type.vectorSize := n } t = none :=
      fun t => by simp [arrayStride?, plain]
    unfold typeWithDimensions
    simp only [stride, stride', ih]
    rfl

theorem valueType_congr {a b : ShaderType} (same : a.sameShape b) :
    valueType p a = valueType p b := by
  simp only [ShaderType.sameShape, Bool.and_eq_true, beq_iff_eq] at same
  obtain ⟨⟨⟨⟨basic, size⟩, cols⟩, rows⟩, arrays⟩ := same
  have changed : TypeRequest.plain b =
      { TypeRequest.plain a with type.vectorSize := b.vectorSize } := by
    simp [TypeRequest.plain, basic, cols, rows, arrays]
  have steps : ∀ depth, typeWithin p depth (.plain b) = typeWithin p depth (.plain a) := by
    intro depth
    cases depth with
    | zero => rfl
    | succ depth =>
      rw [changed]
      exact typeWithDimensions_congr rfl size.symm _ _
  exact (steps _).symm

end Codegen

/-! ## Types of different shapes -/

/-- Numbers and truth values, vectors and matrices of two to four of them in each direction, and
arrays of those that have a length of their own. -/
structure ShaderType.IsSimple (t : ShaderType) : Prop where
  basic : t.basic = .bool ∨ (∃ width, t.basic = .int width) ∨ (∃ width, t.basic = .uint width) ∨
    ∃ width, t.basic = .float width
  shape : t.matrixCols = 0 ∧ t.matrixRows = 0 ∧ t.vectorSize ≤ 4 ∨
    t.matrixCols ∈ [2, 3, 4] ∧ t.matrixRows ∈ [2, 3, 4] ∧ t.vectorSize = 0
  arrays : ∀ size ∈ t.arrays, ∃ n, size = .sized n

/-- The forms of scalars. -/
def TypeForm.isScalar : TypeForm → Bool
  | .bool | .int .. | .float .. => true
  | _ => false

theorem BasicType.isScalar_of_declaration? {explicit : Bool}
    (h : basic.declaration? explicit = some (op, operands, form)) : form.isScalar := by
  cases basic with
  | bool =>
    simp only [declaration?] at h
    split at h <;> cases h <;> rfl
  | int | uint | float =>
    cases h
    rfl
  | _ => cases h

theorem BasicType.eq_of_declaration? {basic' : BasicType} {op' : Opcode}
    {operands' : List Operand} (h : basic.declaration? false = some (op, operands, form))
    (h' : basic'.declaration? false = some (op', operands', form)) : basic = basic' := by
  cases basic <;> cases h <;> cases basic' <;> cases h' <;> rfl

namespace Builder

variable {b : Builder} {t u : ShaderType} {scalar scalar' id : Ident} {form form' : TypeForm}

/-- A vector of one component is the scalar itself. -/
theorem VectorOf.looks (h : b.VectorOf scalar n id) (known : b.form? scalar = some form) :
    n ≤ 1 ∧ id = scalar ∧ b.form? id = some form ∨ b.form? id = some (.vector scalar n) := by
  unfold VectorOf at h
  split at h
  · exact .inl ⟨‹_›, h, h ▸ known⟩
  · exact .inr h.known

theorem VectorOf.injective (h : b.VectorOf scalar n id) (h' : b.VectorOf scalar' k id)
    (known : b.form? scalar = some form) (known' : b.form? scalar' = some form')
    (isScalar : form.isScalar) (isScalar' : form'.isScalar) :
    scalar = scalar' ∧ max n 1 = max k 1 := by
  rcases h.looks known with ⟨single, rfl, same⟩ | vector <;>
    rcases h'.looks known' with ⟨single', rfl, same'⟩ | vector'
  · exact ⟨rfl, by omega⟩
  · cases same.symm.trans vector'
    cases isScalar
  · cases same'.symm.trans vector
    cases isScalar'
  · cases vector.symm.trans vector'
    exact ⟨rfl, rfl⟩

theorem VectorOf.not_matrix (h : b.VectorOf scalar n id) (known : b.form? scalar = some form)
    (isScalar : form.isScalar) {column : Ident} {count : Nat} :
    b.form? id ≠ some (.matrix column count) := by
  intro matrix
  rcases h.looks known with ⟨-, -, same⟩ | vector
  · cases same.symm.trans matrix
    cases isScalar
  · cases vector.symm.trans matrix

theorem Shaped.injective (h : b.Shaped t scalar id) (h' : b.Shaped u scalar' id)
    (known : b.form? scalar = some form) (known' : b.form? scalar' = some form')
    (isScalar : form.isScalar) (isScalar' : form'.isScalar) (simple : t.IsSimple)
    (simple' : u.IsSimple) :
    scalar = scalar' ∧ max t.vectorSize 1 = max u.vectorSize 1 ∧ t.matrixCols = u.matrixCols ∧
      t.matrixRows = u.matrixRows := by
  unfold Shaped at h h'
  have shape := simple.shape
  have shape' := simple'.shape
  by_cases matrix : 0 < t.matrixCols <;> by_cases matrix' : 0 < u.matrixCols
  · rw [if_pos matrix] at h
    rw [if_pos matrix'] at h'
    obtain ⟨column, vector, type⟩ := h
    obtain ⟨column', vector', type'⟩ := h'
    have forms := type.known.symm.trans type'.known
    simp only [Option.some.injEq, TypeForm.matrix.injEq] at forms
    obtain ⟨rfl, cols⟩ := forms
    obtain ⟨same, rows⟩ := vector.injective vector' known known' isScalar isScalar'
    simp only [mem_cons, not_mem_nil, or_false] at shape shape'
    exact ⟨same, by omega, cols, by omega⟩
  · rw [if_pos matrix] at h
    rw [if_neg matrix'] at h'
    obtain ⟨column, -, type⟩ := h
    exact absurd type.known (h'.not_matrix known' isScalar')
  · rw [if_neg matrix] at h
    rw [if_pos matrix'] at h'
    obtain ⟨column, -, type⟩ := h'
    exact absurd type.known (h.not_matrix known isScalar)
  · rw [if_neg matrix] at h
    rw [if_neg matrix'] at h'
    obtain ⟨same, size⟩ := h.injective h' known known' isScalar isScalar'
    simp only [mem_cons, not_mem_nil, or_false] at shape shape'
    exact ⟨same, size, by omega, by omega⟩

theorem HasLength.literal (h : b.HasLength (.sized n) length) (tidy : b.Tidy) :
    b.literal? length = some n := by
  obtain ⟨type, -, number⟩ := (h n rfl).number tidy
  exact number.literal

theorem HasLength.injective (tidy : b.Tidy) (h : b.HasLength (.sized n) length)
    (h' : b.HasLength (.sized k) length) : n = k :=
  Option.some.inj ((h.literal tidy).symm.trans (h'.literal tidy))

end Builder

theorem ShaderType.IsSimple.inner {t : ShaderType} (h : t.IsSimple)
    {inner : List ArraySize} (arrays : t.arrays = size :: inner) :
    ShaderType.IsSimple { t with arrays := inner } :=
  ⟨h.basic, h.shape, fun s mem => h.arrays s (arrays ▸ mem_cons_of_mem size mem)⟩

namespace Typed

variable {s : State} {t u : ShaderType} {packing packing' : Packing} {rowMajor rowMajor' : Bool}
  {id : Ident}

theorem scalar_of_simple (h : Typed p s t packing rowMajor id) (simple : t.IsSimple)
    (plain : packing.isExplicit = false) (arrays : t.arrays = []) :
    ∃ op operands form scalar, t.basic.declaration? false = some (op, operands, form) ∧
      s.builder.form? scalar = some form ∧ s.builder.Shaped t scalar id := by
  have basic : (t.basic.declaration? false).isSome := by
    rcases simple.basic with h | ⟨_, h⟩ | ⟨_, h⟩ | ⟨_, h⟩ <;> rw [h] <;> rfl
  obtain ⟨op, operands, form, scalar, declared, type, shaped⟩ :=
    h.number_of_declaration basic arrays
  exact ⟨op, operands, form, scalar, plain ▸ declared, type.known, shaped⟩

theorem array_of_simple (h : Typed p s t packing rowMajor id) (simple : t.IsSimple)
    {inner : List ArraySize} (arrays : t.arrays = size :: inner) :
    ∃ element length stride n, size = .sized n ∧
      Typed p s { t with arrays := inner } packing rowMajor element ∧
      s.builder.HasLength (.sized n) length ∧
      s.builder.form? id = some (.array element length stride) := by
  obtain ⟨n, rfl⟩ := simple.arrays size (by simp [arrays])
  obtain ⟨element, typed, -, ⟨length, sized, stride, form, -⟩ | ⟨unsized, -⟩⟩ :=
    h.element_of_array arrays
  · exact ⟨element, length, stride, n, rfl, typed, sized, form⟩
  · cases unsized

theorem not_array_of_shaped {b : Builder} {scalar : Ident}
    (h : b.Shaped t scalar id) (known : b.form? scalar = some form) (isScalar : form.isScalar)
    {element : Ident} {stride : Option Nat} : b.form? id ≠ some (.array element length stride) := by
  intro array
  unfold Shaped at h
  split at h
  · obtain ⟨column, -, matrix⟩ := h
    cases matrix.known.symm.trans array
  · rcases h.looks known with ⟨-, -, same⟩ | vector
    · cases same.symm.trans array
      cases isScalar
    · cases vector.symm.trans array

theorem sameShape (h : Typed p s t packing rowMajor id) (h' : Typed p s u packing' rowMajor' id)
    (tidy : s.builder.Tidy) (plain : packing.isExplicit = false)
    (plain' : packing'.isExplicit = false) (simple : t.IsSimple) (simple' : u.IsSimple) :
    t.basic = u.basic ∧ max t.vectorSize 1 = max u.vectorSize 1 ∧ t.matrixCols = u.matrixCols ∧
      t.matrixRows = u.matrixRows ∧ t.arrays = u.arrays := by
  -- The dimensions are compared from the outermost one on.
  generalize dimensions : t.arrays = dims
  induction dims generalizing t u id with
  | nil =>
    obtain ⟨op, operands, form, scalar, declared, known, shaped⟩ :=
      h.scalar_of_simple simple plain dimensions
    have isScalar := BasicType.isScalar_of_declaration? declared
    cases dimensions' : u.arrays with
    | nil =>
      obtain ⟨_, _, form', scalar', declared', known', shaped'⟩ :=
        h'.scalar_of_simple simple' plain' dimensions'
      have isScalar' := BasicType.isScalar_of_declaration? declared'
      obtain ⟨rfl, shape⟩ := shaped.injective shaped' known known' isScalar isScalar' simple simple'
      cases known.symm.trans known'
      exact ⟨BasicType.eq_of_declaration? declared declared', shape.1, shape.2.1, shape.2.2, rfl⟩
    | cons size inner =>
      obtain ⟨_, _, _, _, -, -, -, array⟩ := h'.array_of_simple simple' dimensions'
      exact absurd array (not_array_of_shaped shaped known isScalar)
  | cons size inner ih =>
    obtain ⟨element, length, stride, n, rfl, typed, sized, array⟩ :=
      h.array_of_simple simple dimensions
    cases dimensions' : u.arrays with
    | nil =>
      obtain ⟨_, _, form', scalar', declared', known', shaped'⟩ :=
        h'.scalar_of_simple simple' plain' dimensions'
      have isScalar' := BasicType.isScalar_of_declaration? declared'
      exact absurd array (not_array_of_shaped shaped' known' isScalar')
    | cons size' inner' =>
      obtain ⟨_, _, _, k, rfl, typed', sized', array'⟩ := h'.array_of_simple simple' dimensions'
      cases array.symm.trans array'
      obtain rfl := sized.injective tidy sized'
      obtain ⟨basic, size, cols, rows, arrays⟩ :=
        ih typed typed' (simple.inner dimensions) (simple'.inner dimensions') rfl
      exact ⟨basic, size, cols, rows, congrArg (ArraySize.sized n :: ·) arrays⟩

end Typed

/-! ## Runs -/

/-- In a run for a program whose lengths are scalars, two types of the same shape are one type of
the module, wherever the run asks for them, if no function has one of their lengths as a parameter.
Simple types of different shape are different types. A run is a course of steps from the beginning;
what is asked for may be asked for at any place of it, and before, after or while other types are
made. -/
theorem Codegen.valueType_one_for_each_shape (o : Options) (lengths : p.ScalarMemberLengths) :
    (∀ u, Ends (whole p o) (p.initial o) () u → Trace p (p.initial o) u) ∧
    ∀ {a b : ShaderType} {s s' t t' u : State} {id id' : Ident},
      Trace p (p.initial o) s → Ends (valueType p a) s id s' → Trace p s' u →
      Trace p (p.initial o) t → Ends (valueType p b) t id' t' → Trace p t' u →
      (a.sameShape b → (∀ x, ArraySize.spec x ∈ a.arrays → p.BoundOnce x) → id = id') ∧
      (a.IsSimple → b.IsSimple → ¬ a.sameShape b → id ≠ id') := by
  refine ⟨fun u ends => whole_trace ends, ?_⟩
  intro a b s s' t t' u id id' reached first after reached' second after'
  have regular := reached.regular (State.regular_initial p o)
  have regular' := reached'.regular (State.regular_initial p o)
  constructor
  · intro same once
    rw [← valueType_congr same] at second
    exact (valueType_settles lengths once).agree first second regular regular' after after'
  · rintro simple simple' different rfl
    obtain ⟨⟨trace, -⟩, typed⟩ := (isTyper_typeWithin p _).yields (.plain a) s id s' first regular
    obtain ⟨⟨trace', -⟩, typed'⟩ := (isTyper_typeWithin p _).yields (.plain b) t id t'
      second regular'
    have known := typed.kept (trace.regular regular).tidy (after.keeps (trace.regular regular))
    have known' := typed'.kept (trace'.regular regular').tidy
      (after'.keeps (trace'.regular regular'))
    have tidy := (after.regular (trace.regular regular)).tidy
    obtain ⟨basic, size, cols, rows, arrays⟩ := known.sameShape known' tidy rfl rfl
      { simple with } { simple' with }
    apply different
    simp only [ShaderType.sameShape, Bool.and_eq_true, beq_iff_eq]
    exact ⟨⟨⟨⟨basic, size⟩, cols⟩, rows⟩, arrays⟩

/-- A program with a constant and with a parameter that lengths can be. -/
def Program.twoLengths : Program :=
  { symbols :=
      [{ name := "count", type := { basic := .int 32, qualifier := { specConstant := true } } },
       { name := "size"
         type := { basic := .int 32, qualifier := { specConstant := true, storage := .paramConst } }
           }]
    functions :=
      [{ name := "main", returnType := { basic := .void } },
       { name := "f", returnType := { basic := .void }, parameters := [1] }] }

theorem Program.scalarMemberLengths_twoLengths : twoLengths.ScalarMemberLengths :=
  fun _ _ found => by cases found

theorem Program.boundOnce_twoLengths : twoLengths.BoundOnce 0 where
  scalar d found := by
    cases found
    rfl
  notParameter := by
    rintro ⟨f, mem, isParameter⟩
    rcases mem_pair.1 mem with rfl | rfl <;> simp at isParameter

theorem Codegen.ends_of_run' {α : Type} {c : Codegen α} {s : State} {a : α}
    (h : c.run' s = some a) : ∃ u, Ends c s a u := by
  unfold EStateM.run' EStateM.run at h
  split at h
  · rename_i u result
    cases h
    exact ⟨u, result⟩
  · cases h

/-- Arrays as long as the constant, with and without a qualifier, and vectors of two lengths. -/
theorem Codegen.valueType_one_for_each_shape_twoLengths :
    ∃ s₁ s₂ s₃ s₄ id₁ id₂ id₃ id₄,
      Ends (valueType .twoLengths { basic := .float 32, arrays := [.spec 0] })
        (twoLengths.initial {}) id₁ s₁ ∧
      Ends (valueType .twoLengths { basic := .float 32, vectorSize := 1, arrays := [.spec 0]
                                    qualifier := { precision := .medium } }) s₁ id₂ s₂ ∧
      Ends (valueType .twoLengths { basic := .float 32, vectorSize := 2, arrays := [.sized 3] })
        s₂ id₃ s₃ ∧
      Ends (valueType .twoLengths { basic := .float 32, vectorSize := 3, arrays := [.sized 3] })
        s₃ id₄ s₄ ∧ id₁ = id₂ ∧ id₃ ≠ id₄ := by
  have run : ∃ u, Ends (do
      let id₁ ← valueType .twoLengths { basic := .float 32, arrays := [.spec 0] }
      let id₂ ← valueType .twoLengths { basic := .float 32, vectorSize := 1, arrays := [.spec 0]
                                        qualifier := { precision := .medium } }
      let id₃ ← valueType .twoLengths { basic := .float 32, vectorSize := 2, arrays := [.sized 3] }
      let id₄ ← valueType .twoLengths { basic := .float 32, vectorSize := 3, arrays := [.sized 3] }
      return [id₁, id₂, id₃, id₄]) (twoLengths.initial {}) [4, 4, 8, 10] u :=
    ends_of_run' (by decide +kernel)
  obtain ⟨u, ends⟩ := run
  obtain ⟨id₁, s₁, first, id₂, s₂, second, ends⟩ := ends_bind₂ ends
  obtain ⟨id₃, s₃, third, ends⟩ := ends_bind ends
  obtain ⟨id₄, s₄, fourth, -⟩ := ends_bind ends
  have regular := State.regular_initial twoLengths {}
  have toFirst := valueType_proceeds _ _ _ _ first regular
  have toSecond := valueType_proceeds _ _ _ _ second (toFirst.regular regular)
  have reached : Trace _ _ s₂ := toFirst.trans toSecond
  have toThird := valueType_proceeds _ _ _ _ third (reached.regular regular)
  have reached' : Trace _ _ s₃ := reached.trans toThird
  have toFourth := valueType_proceeds _ _ _ _ fourth (reached'.regular regular)
  obtain ⟨-, shapes⟩ := valueType_one_for_each_shape {} scalarMemberLengths_twoLengths
  refine ⟨s₁, s₂, s₃, s₄, id₁, id₂, id₃, id₄, first, second, third, fourth, ?_, ?_⟩
  · refine (shapes .refl first toSecond toFirst second .refl).1 rfl fun x mem => ?_
    cases mem_singleton.1 mem
    exact boundOnce_twoLengths
  · exact (shapes reached third toFourth reached' fourth .refl).2 ⟨by simp, by simp, by simp⟩
      ⟨by simp, by simp, by simp⟩ (by decide)

end ShaderGen
