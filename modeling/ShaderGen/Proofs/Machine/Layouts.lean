import ShaderGen.Proofs.Machine.Recast
import ShaderGen.Proofs.Typing.Stability

/-!
# Values between the layouts of a type

All types of the module that a run gets for one type of the program are alike (`Typed.alike`): they
differ in strides and offsets, and in truth values that are words where memory is laid out. So a
value can be taken from any of them to any other one, and back (`Codegen.recast_between_layouts`).
-/

namespace ShaderGen

open Builder
open Steps (Ends ends_bind)

/-- The type is made of numbers, truth values, vectors, matrices of numbers, references, structures
and arrays with given lengths. -/
inductive Program.Convertible (p : Program) : ShaderType → Prop
  | number {t : ShaderType} (arrays : t.arrays = []) (basic : (t.basic.declaration? false).isSome)
      (truth : t.basic = .bool → t.matrixCols = 0) : Convertible p t
  | reference {t : ShaderType} {struct : StructId} (arrays : t.arrays = [])
      (basic : t.basic = .reference struct) : Convertible p t
  | struct {t : ShaderType} {struct : StructId} {decl : StructDecl} (arrays : t.arrays = [])
      (isStruct : t.structId? = some struct) (declared : p.struct? struct = some decl)
      (members : ∀ m ∈ p.presentMembers decl, Convertible p m.1.type) : Convertible p t
  | array {t : ShaderType} {n : Nat} {inner : List ArraySize}
      (arrays : t.arrays = .sized n :: inner)
      (range : n < wordCount) (element : Convertible p { t with arrays := inner }) : Convertible p t

namespace Builder

variable {b : Builder} {scalar scalar' a c : Ident} {n : Nat}

theorem VectorOf.unique (h : b.VectorOf scalar n a) (h' : b.VectorOf scalar n c) : a = c := by
  unfold VectorOf at h h'
  split at h
  · rw [if_pos ‹_›] at h'
    exact h.trans h'.symm
  · rw [if_neg ‹_›] at h'
    exact h.finds.unique h'.finds

theorem Shaped.unique {t : ShaderType} (h : b.Shaped t scalar a) (h' : b.Shaped t scalar c) :
    a = c := by
  unfold Shaped at h h'
  split at h
  · rw [if_pos ‹_›] at h'
    obtain ⟨column, vector, matrix⟩ := h
    obtain ⟨column', vector', matrix'⟩ := h'
    obtain rfl := vector.unique vector'
    exact matrix.finds.unique matrix'.finds
  · rw [if_neg ‹_›] at h'
    exact h.unique h'

theorem VectorOf.alike {allowed : TypeForm → TypeForm → Prop} {f g : TypeForm}
    (h : b.VectorOf scalar n a) (h' : b.VectorOf scalar' n c) (form : b.form? scalar = some f)
    (form' : b.form? scalar' = some g) (differs : f.Differs g) (may : allowed f g) :
    ∃ depth, b.Alike allowed depth a c := by
  unfold VectorOf at h h'
  split at h
  · rw [if_pos ‹_›] at h'
    subst h h'
    exact ⟨1, .scalar form form' differs may⟩
  · rw [if_neg ‹_›] at h'
    exact ⟨2, .vector h.known h'.known form form' differs may⟩

end Builder

namespace Typed

variable {p : Program} {s : State} {t : ShaderType} {packing packing' : Packing}
  {rowMajor rowMajor' : Bool} {q q' : Qualifier} {a c : Ident}

theorem alike_of_number (h : Typed p s { t with qualifier := q } packing rowMajor a)
    (h' : Typed p s { t with qualifier := q' } packing' rowMajor' c) (arrays : t.arrays = []) (basic : (t.basic.declaration? false).isSome)
    (truth : t.basic = .bool → t.matrixCols = 0) : ∃ depth,
      s.builder.Alike (fun f g => packing.isExplicit = false → f.Stores g) depth a c := by
  obtain ⟨op, operands, form, scalar, declared, type, shaped⟩ :=
    h.number_of_declaration basic arrays
  obtain ⟨op', operands', form', scalar', declared', type', shaped'⟩ :=
    h'.number_of_declaration basic arrays
  by_cases same : t.basic.declaration? packing.isExplicit = t.basic.declaration? packing'.isExplicit
  · rw [same, declared', Option.some.injEq, Prod.mk.injEq, Prod.mk.injEq] at declared
    obtain ⟨rfl, rfl, rfl⟩ := declared
    obtain rfl := type.finds.unique type'.finds
    obtain rfl := shaped.unique shaped'
    exact ⟨1, .same⟩
  · have isBool : t.basic = .bool := by
      cases kind : t.basic <;> rw [kind] at same <;> first | rfl | exact absurd rfl same
    have noColumns : ¬ 0 < t.matrixCols := by simp [truth isBool]
    rw [Shaped, if_neg noColumns] at shaped shaped'
    rw [isBool] at declared declared' same
    have word : TypeForm.bool.Stores (.int 32 false) := ⟨rfl, 32, false, rfl, by decide⟩
    cases explicit : packing.isExplicit <;> cases explicit' : packing'.isExplicit
    · exact absurd (by rw [explicit, explicit']) same
    · rw [explicit] at declared
      rw [explicit'] at declared'
      cases declared
      cases declared'
      exact shaped.alike shaped' type.known type'.known (.inl word) fun _ => word
    · rw [explicit] at declared
      rw [explicit'] at declared'
      cases declared
      cases declared'
      exact shaped.alike shaped' type.known type'.known (.inr word) fun other => by cases other
    · exact absurd (by rw [explicit, explicit']) same

/-- The types of the module for one type of the program are alike. Where the first one is not laid
out, it is the one that keeps truth values apart from numbers. -/
theorem alike (convertible : p.Convertible t) (tidy : s.builder.Tidy)
    (h : Typed p s { t with qualifier := q } packing rowMajor a)
    (h' : Typed p s { t with qualifier := q' } packing' rowMajor' c) : ∃ depth,
      s.builder.Alike (fun f g => packing.isExplicit = false → f.Stores g) depth a c := by
  induction convertible generalizing q q' rowMajor rowMajor' a c with
  | number arrays basic truth => exact h.alike_of_number h' arrays basic truth
  | reference arrays basic =>
    obtain ⟨r, found, rfl⟩ := h.of_reference arrays basic
    obtain ⟨r', found', rfl⟩ := h'.of_reference arrays basic
    cases found.symm.trans found'
    exact ⟨1, .same⟩
  | struct arrays isStruct declared _ ih =>
    obtain ⟨decl, members, known, -, form, count, typed, -⟩ := h.members_of_struct arrays isStruct
    obtain ⟨decl', members', known', -, form', count', typed', -⟩ :=
      h'.members_of_struct arrays isStruct
    cases declared.symm.trans known
    cases declared.symm.trans known'
    refine ⟨s.builder.nesting + 1, .struct form form' (count.trans count'.symm)
      fun k x y hx hy => ?_⟩
    obtain ⟨⟨m, source⟩, present⟩ := exists_getElem?_of_length_eq count.symm hx
    obtain ⟨depth, inner⟩ := ih (m, source) (List.mem_of_getElem? present)
      (typed k m source x present hx)
      (typed' k m source y present hy)
    exact inner.within_nesting
  | array arrays range _ ih =>
    obtain ⟨element, typed, -, ⟨length, sized, _, form, -⟩ | ⟨unsized, -⟩⟩ :=
      h.element_of_array arrays
    · obtain ⟨element', typed', -, ⟨length', sized', _, form', -⟩ | ⟨unsized, -⟩⟩ :=
        h'.element_of_array arrays
      · obtain ⟨depth, inner⟩ := ih typed typed'
        exact ⟨_, .array form form' ⟨sized.literal tidy, range⟩ ⟨sized'.literal tidy, range⟩ inner⟩
      · cases unsized
    · cases unsized

end Typed

namespace Builder

variable {b : Builder} {k depth : Nat} {v source target : Ident}

theorem recast_back_succeeds (h : b.Alike TypeForm.Stores depth source target) (takes : b.Takes k)
    (known : v < b.output.bound) : Succeeds k b (do
        let w ← recast v source target
        recast w target source) fun z code b' => ∀ (F : Builder) (m : Machine) (x : Datum),
      b'.Enters F → m.Fits F → m.values v = some ⟨source, x⟩ → b.Inhabits source x →
      ∃ m', run code m = some m' ∧ m'.memory = m.memory ∧ m'.values z = some ⟨source, x⟩ := by
  refine .bind (recast_succeeds h takes known) fun w code b1 writes there => ?_
  refine (recast_succeeds (h.later writes.later).symm writes.takes there.known).mono
    fun z code' b2 writes' again F m x enters fits value inhabits => ?_
  have enters1 := trans_of Enters writes'.enters enters
  obtain ⟨m1, y, run1, memory1, result1, stands1, inhabits1⟩ :=
    there.turns F m x enters1 fits value inhabits
  obtain ⟨m2, z, run2, memory2, result2, stands2, inhabits2⟩ :=
    again.turns F m1 y enters (writes.fits run1 enters1 fits) result1 inhabits1
  have later := writes.later.trans writes'.later
  obtain rfl := (h.later later).back (inhabits.later later) (inhabits1.later writes'.later)
    inhabits2 stands1 stands2
  exact ⟨m2, (run_append run1).trans run2, memory2.trans memory1, result2⟩

end Builder

/-- In a run, a value can be taken between any two types of the module for one type of the program,
in whatever layouts and with whatever qualifiers they have been asked for, wherever a block takes
code. The code leads from each value of the one type to a value of the other one that stands for the
same, it copies aggregates as a whole only where nothing but the layout differs and the version has
an instruction for it, and a value that is not laid out comes back unchanged. -/
theorem Codegen.recast_between_layouts {p : Program} (o : Options) {T : ShaderType}
    (convertible : p.Convertible T) :
    (∀ u, Ends (whole p o) (p.initial o) () u → Trace p (p.initial o) u) ∧
    ∀ {r r' : TypeRequest} {s s' t t' u : State} {a c v : Ident} {k : Nat},
      r.type = { T with qualifier := r.type.qualifier } →
      Trace p (p.initial o) s → Ends (typer p r) s a s' → Trace p s' u →
      r'.type = { T with qualifier := r'.type.qualifier } →
      Trace p (p.initial o) t → Ends (typer p r') t c t' → Trace p t' u →
      u.builder.inFunction = true → u.builder.block = some k → v < u.builder.output.bound →
      (Succeeds k u.builder (recast v a c) fun w code b =>
        RecastsValue u.builder b v a w c code) ∧
      (r.packing.isExplicit = false → Succeeds k u.builder (do
          let w ← recast v a c
          recast w c a) fun z code b => ∀ (F : Builder) (m : Machine) (x : Datum),
        b.Enters F → m.Fits F → m.values v = some ⟨a, x⟩ → u.builder.Inhabits a x →
        ∃ m', run code m = some m' ∧ m'.memory = m.memory ∧ m'.values z = some ⟨a, x⟩) := by
  refine ⟨fun u ends => whole_trace ends, ?_⟩
  intro r r' s s' t t' u a c v k same reached first after same' reached' second after' inside block
    known
  have regular := reached.regular (State.regular_initial p o)
  have regular' := reached'.regular (State.regular_initial p o)
  obtain ⟨⟨trace, -⟩, typed⟩ := (isTyper_typeWithin p _).yields r s a s' first regular
  obtain ⟨⟨trace', -⟩, typed'⟩ := (isTyper_typeWithin p _).yields r' t c t' second regular'
  have typed := typed.kept (trace.regular regular).tidy (after.keeps (trace.regular regular))
  have typed' := typed'.kept (trace'.regular regular').tidy (after'.keeps (trace'.regular regular'))
  have tidy := (after.regular (trace.regular regular)).tidy
  obtain ⟨depth, alike⟩ := Typed.alike convertible tidy (same ▸ typed) (same' ▸ typed')
  have takes : u.builder.Takes k := ⟨tidy, inside, block⟩
  refine ⟨recast_succeeds alike takes known, fun plain => ?_⟩
  exact recast_back_succeeds (alike.weaken fun f g may => may plain) takes known

/-- A program with a structure of a truth value and an array. -/
def Program.lamp : Program :=
  { structs :=
      [{ name := "Lamp"
         members := [{ name := "lit", type := { basic := .bool } },
           { name := "colors"
             type := { basic := .float 32, vectorSize := 3, arrays := [.sized 2] } }] }]
    functions := [{ name := "main", returnType := { basic := .void } }] }

theorem Program.convertible_lamp : Program.lamp.Convertible { basic := .struct 0 } := by
  refine .struct rfl rfl rfl fun m mem => ?_
  have listed : m = (lamp.structs[0].members[0], 0) ∨ m = (lamp.structs[0].members[1], 1) := by
    simpa [presentMembers, lamp, hasMember] using mem
  rcases listed with rfl | rfl
  · exact .number rfl rfl fun _ => rfl
  · exact .array rfl (by decide) (.number rfl rfl fun other => by cases other)

/-- A function whose parameter is a structure takes it to the type for a buffer and back. -/
theorem Codegen.recast_between_layouts_lamp : ∃ (a c v : Ident) (k : Nat) (u : State),
    Trace .lamp (Program.lamp.initial {}) u ∧ a ≠ c ∧ v < u.builder.output.bound ∧
    (Succeeds k u.builder (recast v a c) fun w code b =>
      RecastsValue u.builder b v a w c code) ∧
    Succeeds k u.builder (do
        let w ← recast v a c
        recast w c a) fun z code b => ∀ (F : Builder) (m : Machine) (x : Datum),
      b.Enters F → m.Fits F → m.values v = some ⟨a, x⟩ → u.builder.Inhabits a x →
      ∃ m', run code m = some m' ∧ m'.memory = m.memory ∧ m'.values z = some ⟨a, x⟩ := by
  let plain : TypeRequest := { type := { basic := .struct 0 } }
  let laid : TypeRequest := { type := { basic := .struct 0 }, packing := .std430 }
  have run : ∃ u, Ends (do
      let a ← typer .lamp plain
      let c ← typer .lamp laid
      let void ← typer .lamp { type := { basic := .void } }
      let parameters ← beginFunction void "main" void [a]
      let b ← builder
      return [[a, c], parameters, b.block.toList, [b.inFunction.toNat, b.output.bound]])
      (Program.lamp.initial {}) [[7, 9], [12], [1], [1, 15]] u := ends_of_run' (by decide +kernel)
  obtain ⟨u, ends⟩ := run
  obtain ⟨a, s₁, first, c, s₂, second, ends⟩ := ends_bind₂ ends
  obtain ⟨void, s₃, third, parameters, s₄, fourth, ends⟩ := ends_bind₂ ends
  obtain ⟨b, s₅, looks, ends⟩ := ends_bind ends
  cases looks
  obtain ⟨facts, rfl⟩ := Steps.ends_pure ends
  simp only [List.cons.injEq, and_true] at facts
  obtain ⟨⟨rfl, rfl⟩, -, block, inside, bound⟩ := facts
  have regular := State.regular_initial Program.lamp {}
  have toFirst := typer_proceeds plain _ _ _ first regular
  have toSecond := typer_proceeds laid _ _ _ second (toFirst.regular regular)
  have reached : Trace _ _ s₂ := toFirst.trans toSecond
  have toThird := typer_proceeds _ _ _ _ third (reached.regular regular)
  have toFourth := build_proceeds (beginFunction_progress _ _ _ _) _ _ _ fourth
    (toThird.regular (reached.regular regular))
  have rest : Trace _ s₂ u := toThird.trans toFourth
  have known : 12 < u.builder.output.bound := by rw [← bound]; decide
  obtain ⟨there, back⟩ := (recast_between_layouts {} Program.convertible_lamp).2 rfl .refl first
    (toSecond.trans rest) rfl toFirst second rest (by simpa using inside.symm)
    (by simpa using block.symm)
    known
  exact ⟨7, 9, 12, 1, u, reached.trans rest, by decide, known, there, back rfl⟩

end ShaderGen
