import ShaderGen.Proofs.Typing.Forms

/-!
# Making types and constants

`Makes c P` says that `c` keeps a builder tidy, ends in a later one, and that `P` holds of what it
gives there. What is asked of a type stays true: the first declaration with its operation and its
operands remains the first one (`Builder.HasType`), and an array remains in its table.
-/

namespace ShaderGen

open List
open Steps (Ends ends_bind ends_then ends_pure)

namespace Builder

variable {b b' : Builder} {op : Opcode} {operands : List Operand} {form : TypeForm} {id : Ident}
  {b1 : Builder} {expected : Option Nat → Decoration → Decoration × Option Operand} {u : PUnit}
  {α : Type} {c : Emit Ident} {m : Type → Type}

/-- A tidy builder goes on to a tidy one. -/
def Progress (b b' : Builder) : Prop := b.Tidy → b'.Tidy ∧ b.Later b'

instance : IsPreorder Builder Progress where
  refl b tidy := ⟨tidy, .refl b⟩
  trans _ _ _ h g tidy := by
    obtain ⟨tidy', later⟩ := h tidy
    obtain ⟨tidy'', later'⟩ := g tidy'
    exact ⟨tidy'', later.trans later'⟩

instance {kind : Annotation → Prop} : IsPreorder Builder (Adorned kind) where
  refl b :=
    ⟨Nat.le_refl _, prefix_rfl, refl_of Demands.Grows _, rfl, rfl, rfl, [], by simp, by simp⟩
  trans _ _ _ h g := by
    obtain ⟨extra, notes, kinds⟩ := h.notes
    obtain ⟨extra', notes', kinds'⟩ := g.notes
    refine ⟨Nat.le_trans h.bound g.bound, h.deadBlocks.trans g.deadBlocks,
      trans_of Demands.Grows h.demands g.demands, g.globals.trans h.globals,
      g.types.trans h.types, g.tables.trans h.tables, extra ++ extra',
      by rw [notes', notes, append_assoc], fun a mem => ?_⟩
    rcases mem_append.1 mem with mem | mem
    · exact kinds a mem
    · exact kinds' a mem

theorem Calm.progress (h : b.Calm b') : b.Progress b' := fun tidy => ⟨h.tidy tidy, h.later⟩

/-- The step keeps a builder tidy, and the condition holds of what it gives. -/
def Makes {m : Type → Type} [Monad m] [Steps m Builder] {α : Type} (c : m α)
    (post : α → Builder → Prop) : Prop :=
  ∀ b a b', Ends c b a b' → b.Tidy → b'.Tidy ∧ b.Later b' ∧ post a b'

theorem Makes.progress [Monad m] [Steps m Builder] {c : m α}
    {post : α → Builder → Prop} (h : Makes c post) : Relates Progress c :=
  fun b a b' ends tidy => ⟨(h b a b' ends tidy).1, (h b a b' ends tidy).2.1⟩

theorem Makes.after [Monad m] [Steps m Builder] {β : Type} {x : m α}
    {f : α → m β} {post : β → Builder → Prop} (hx : Relates Progress x)
    (hf : ∀ a, Makes (f a) post) : Makes (x >>= f) post := by
  intro b r b'' ends tidy
  obtain ⟨a, b', first, second⟩ := ends_bind ends
  obtain ⟨tidy', later⟩ := hx b a b' first tidy
  obtain ⟨tidy'', later', holds⟩ := hf a b' r b'' second tidy'
  exact ⟨tidy'', later.trans later', holds⟩

/-! ## Types that are shared -/

/-- The id of the first declaration with the operation and the operands. -/
def Finds (b : Builder) (op : Opcode) (operands : List Operand) (id : Ident) : Prop :=
  ∃ i, b.output.globals.find? (fun i => i.op == op && i.operands == operands) = some i ∧
    i.result = some id

/-- The module has a type of the form, and whoever asks for it gets the id. -/
structure HasType (b : Builder) (op : Opcode) (operands : List Operand) (form : TypeForm)
    (id : Ident) : Prop where
  finds : b.Finds op operands id
  known : b.form? id = some form
  declared : form.isAnnounced = false

theorem Finds.later (h : b.Finds op operands id) (later : b.Later b') :
    b'.Finds op operands id := by
  obtain ⟨i, found, result⟩ := h
  obtain ⟨rest, globals⟩ := later.globals
  refine ⟨i, ?_, result⟩
  rw [← globals, find?_append, found]
  rfl

theorem Finds.unique {id' : Ident} (h : b.Finds op operands id) (g : b.Finds op operands id') :
    id = id' := by
  obtain ⟨i, found, result⟩ := h
  obtain ⟨j, found', result'⟩ := g
  rw [found, Option.some.injEq] at found'
  subst found'
  exact Option.some.inj (result.symm.trans result')

theorem Finds.mem (h : b.Finds op operands id) :
    ∃ i ∈ b.output.globals, i.result = some id ∧ i.op = op ∧ i.operands = operands := by
  obtain ⟨i, found, result⟩ := h
  have same := find?_some found
  simp only [Bool.and_eq_true, beq_iff_eq] at same
  exact ⟨i, mem_of_find?_eq_some found, result, same⟩

theorem HasType.later (h : b.HasType op operands form id) (later : b.Later b') :
    b'.HasType op operands form id :=
  ⟨h.finds.later later, later.form h.known h.declared, h.declared⟩

/-- The form of a declaration is the one that is remembered, but for its stride. -/
theorem Finds.known (tidy : b.Tidy) (h : b.Finds op operands id) (made : form.Spells op operands) :
    ∃ f, b.form? id = some f ∧ f.strip = form.strip ∧ f.isAnnounced = false := by
  obtain ⟨i, mem, result, rfl, rfl⟩ := h.mem
  have made : i.form? = some form.strip := made.declared
  obtain ⟨f, found⟩ := Option.isSome_iff_exists.1 (tidy.known i mem (by simp [made]) id result)
  have true_ := tidy.forms id f found
  have declared : f.isAnnounced = false := by
    by_contra announced
    exact true_.announced (by simpa using announced) i mem result
  obtain ⟨_, _, mem', made'⟩ := true_.declared declared
  cases tidy.distinct.once i mem _ mem' id result rfl
  exact ⟨f, found, Option.some.inj (made'.declared.symm.trans made), declared⟩

end Builder

/-- Forms of types that have no stride and a declaration of their own. -/
def TypeForm.isRigid : TypeForm → Bool
  | .array _ _ _ | .runtimeArray _ _ | .pointer _ none => false
  | _ => true

theorem TypeForm.eq_of_strip {f form : TypeForm} (rigid : form.isRigid)
    (same : f.strip = form.strip) : f = form := by
  cases f <;> cases form <;> simp_all [TypeForm.strip, isRigid]

theorem TypeForm.plain_of_isRigid {form : TypeForm} (rigid : form.isRigid) :
    form.isAnnounced = false ∧ form.stride? = none := by
  cases form with
  | pointer storage pointee => cases pointee <;> simp_all [isAnnounced, stride?, isRigid]
  | _ => simp_all [isAnnounced, stride?, isRigid]

/-- The operands of the declaration of an image type. -/
def Builder.ImageType.operands (i : ImageType) : List Operand :=
  [.ref i.sampled, .dimension i.dimension, .literal i.depth.toNat, .literal i.arrayed.toNat,
   .literal i.multisampled.toNat, .literal i.usage, .format i.format]

namespace Builder

variable {b b' : Builder} {op : Opcode} {operands : List Operand} {form : TypeForm} {id : Ident}
  {a : Annotation} {b2 : Builder} {make : Emit Ident} {element type : Ident} {members : List Ident}
  {stride : Option Nat} {text : String}

/-- The builder with other forms. -/
def withTypes (b : Builder) (types : List (Ident × TypeForm)) : Builder := { b with types }

theorem sharedType_cases (tidy : b.Tidy) (other : op ≠ .typeForwardPointer)
    (operands : List Operand) :
    (∃ id, b.Finds op operands id ∧ (sharedType op operands).run b = (id, b)) ∨
      b.output.globals.find? (fun i => i.op == op && i.operands == operands) = none ∧
        (sharedType op operands).run b = (distinctType op operands).run b := by
  cases found : b.output.globals.find? (fun i => i.op == op && i.operands == operands) with
  | none =>
    refine .inr ⟨rfl, ?_⟩
    simp only [sharedType, StateT.run_bind, StateT.run_get, pure_bind, found]
    rfl
  | some i =>
    have same := find?_some found
    simp only [Bool.and_eq_true, beq_iff_eq] at same
    obtain ⟨op', type, result, operands'⟩ := i
    cases result with
    | none =>
      have nameless := tidy.distinct.nameless _ (mem_of_find?_eq_some found) rfl
      exact absurd (same.1.symm.trans nameless) other
    | some id =>
      refine .inl ⟨id, ⟨_, found, rfl⟩, ?_⟩
      simp only [sharedType, StateT.run_bind, StateT.run_get, pure_bind, found]
      rfl

theorem record_known (ends : Ends (record id form) b u b') (h : (b.form? id).isSome) : b = b' := by
  cases ends
  exact (if_pos h).symm

theorem record_unknown (ends : Ends (record id form) b u b') (h : b.form? id = none) :
    b' = b.withTypes ((id, form) :: b.types) := by
  cases ends
  exact if_neg (by simp [h])

theorem form?_addType (b : Builder) (op : Opcode) (operands : List Operand) (form : TypeForm) :
    (b.addType op operands form).form? b.output.bound = some form := by
  simp [addType, form?]

theorem distinctType_adds (noStride : form.stride? = none)
    (ends : Ends (distinctType op operands) b id b1) :
    id = b.output.bound ∧ b1 = (b.addType op operands form).withTypes b.types := by
  obtain ⟨rfl, rfl⟩ := Prod.mk.inj ends
  exact ⟨rfl, by simp [addType, withTypes, noStride]⟩

theorem recordedType_makes (op : Opcode) (operands : List Operand) (form : TypeForm)
    (made : form.Spells op operands) (rigid : form.isRigid) : Makes (do
      let id ← sharedType op operands
      record id form
      return id : Emit Ident) fun id b => b.HasType op operands form id := by
  intro b id b' ends tidy
  obtain ⟨declared, noStride⟩ := TypeForm.plain_of_isRigid rigid
  have other : op ≠ .typeForwardPointer := by
    rintro rfl
    simpa [declaredForm] using made.declared
  obtain ⟨id, b1, first, u, b2, second, ends⟩ := ends_bind₂ ends
  obtain ⟨rfl, rfl⟩ := ends_pure ends
  rcases sharedType_cases tidy other operands with ⟨id', finds, run⟩ | ⟨none, run⟩
  · cases run.symm.trans first
    obtain ⟨f, found, same, -⟩ := finds.known tidy made
    obtain rfl := TypeForm.eq_of_strip rigid same
    obtain rfl := record_known second (by simp [found])
    exact ⟨tidy, .refl b, finds, found, declared⟩
  · obtain ⟨rfl, rfl⟩ := distinctType_adds noStride (run.symm.trans first)
    obtain rfl := record_unknown second tidy.form?_bound
    have finds : (b.addType op operands form).Finds op operands b.output.bound :=
      ⟨{ op, result := some b.output.bound, operands }, by simp [addType, none], rfl⟩
    exact ⟨tidy.addType made declared, tidy.later_addType, finds, form?_addType .., declared⟩

section Adorned

variable {kind : Annotation → Prop}

theorem Adorned.of_output (b : Builder) {b' : Builder} (bound : b.output.bound ≤ b'.output.bound)
    (same : (b'.demands, b'.output.globals, b'.output.annotations, b'.deadBlocks, b'.types,
      b'.tables) = (b.demands, b.output.globals, b.output.annotations, b.deadBlocks, b.types,
      b.tables)) : b.Adorned kind b' := by
  simp only [Prod.mk.injEq] at same
  obtain ⟨demands, globals, annotations, dead, types, tables⟩ := same
  refine ⟨bound, dead ▸ prefix_rfl, ?_, globals, types, tables, [],
    by rw [annotations, append_nil], by simp⟩
  rw [demands]
  exact refl_of Demands.Grows _

theorem fresh_adorned : Relates (Adorned kind) fresh := fun b _ _ ends => by
  cases ends
  exact .of_output b (Nat.le_succ _) rfl

theorem adorned_demanding (b : Builder) {qs : List Request}
    (general : ∀ e, .extension e ∈ qs → e ∈ Extension.all) : b.Adorned kind (b.demanding qs) :=
  ⟨Nat.le_refl _, prefix_rfl, b.demands_demanding qs ▸ b.demands.grows_demanding general, rfl, rfl,
    rfl, [], (append_nil _).symm, by simp⟩

theorem addCapability_adorned (c : Capability) : Relates (Adorned kind) (addCapability c) :=
  fun b _ _ ends => ends_addCapability ends ▸ adorned_demanding b (by simp)

theorem useExtension_adorned {e : Extension} (general : e ∈ Extension.all) :
    Relates (Adorned kind) (useExtension e) := fun b _ _ ends =>
  ends_useExtension ends ▸ adorned_demanding b (by simpa using general)

theorem require_adorned {r : Requirements} (general : r.General) :
    Relates (Adorned kind) (require r) := fun b _ _ ends =>
  ends_require ends ▸ adorned_demanding b general.requests

theorem usePhysicalAddresses_adorned : Relates (Adorned kind) usePhysicalAddresses :=
  .bind (addCapability_adorned _) fun _ => .bind (useExtension_adorned (by decide)) fun _ =>
    .alter fun b => .of_output b (Nat.le_refl _) rfl

theorem addName_adorned (n : DebugName) : Relates (Adorned kind) (addName n) :=
  .alter fun b => by split <;> exact .of_output b (Nat.le_refl _) rfl

theorem importSet_adorned (name : String) : Relates (Adorned kind) (importSet name) := by
  refine .bind .getEmit fun b => ?_
  split
  · exact .pure
  · exact .bind fresh_adorned fun id =>
      .bind (.alter fun b => .of_output b (Nat.le_refl _) rfl) fun _ => .pure

theorem annotate_adorned (h : kind a) : Relates (Adorned kind) (annotate a) :=
  .alter fun b =>
    ⟨Nat.le_refl _, prefix_rfl, refl_of Demands.Grows _, rfl, rfl, rfl, [a], rfl, by simpa⟩

end Adorned

theorem progress_of_calm [Monad m] [Steps m Builder] {c : m α}
    (h : Relates Calm c) : Relates Progress c := fun b a b' ends => (h b a b' ends).progress

/-! ## Scalars, vectors, matrices and images -/

theorem typeVoid_makes : Makes typeVoid fun id b => b.HasType .typeVoid [] .void id :=
  recordedType_makes _ _ _ rfl rfl

theorem typeBool_makes : Makes typeBool fun id b => b.HasType .typeBool [] .bool id :=
  recordedType_makes _ _ _ rfl rfl

theorem typeInt_makes (width : Nat) (signed : Bool) : Makes (typeInt width signed) fun id b =>
    b.HasType .typeInt [.literal width, .literal signed.toNat] (.int width signed) id := by
  have made := recordedType_makes .typeInt [.literal width, .literal signed.toNat]
    (.int width signed) rfl rfl
  unfold typeInt
  split
  · exact .after (progress_of_calm (addCapability_adorned _)) fun _ => made
  · exact made

theorem typeFloat_makes (width : Nat) : Makes (typeFloat width) fun id b =>
    b.HasType .typeFloat [.literal width] (.float width) id := by
  have made := recordedType_makes .typeFloat [.literal width] (.float width) rfl rfl
  unfold typeFloat
  split
  · exact .after (progress_of_calm (addCapability_adorned _)) fun _ => made
  · exact made

/-- A vector of the components, or the component itself if it is the only one. -/
def VectorOf (b : Builder) (component : Ident) (count : Nat) (id : Ident) : Prop :=
  if count ≤ 1 then id = component
  else b.HasType .typeVector [.ref component, .literal count] (.vector component count) id

theorem typeVector_makes (component : Ident) (count : Nat) :
    Makes (typeVector component count) fun id b => b.VectorOf component count id := by
  unfold typeVector VectorOf
  split
  · intro b id b' ends tidy
    obtain ⟨rfl, rfl⟩ := ends_pure ends
    exact ⟨tidy, .refl _, rfl⟩
  · exact recordedType_makes _ _ _ rfl rfl

theorem typeMatrix_makes (column : Ident) (count : Nat) :
    Makes (typeMatrix column count) fun id b =>
    b.HasType .typeMatrix [.ref column, .literal count] (.matrix column count) id :=
  recordedType_makes _ _ _ rfl rfl

theorem typeSampler_makes : Makes typeSampler fun id b => b.HasType .typeSampler [] .sampler id :=
  recordedType_makes _ _ _ rfl rfl

theorem typeImage_makes (i : ImageType) : Makes (typeImage i) fun id b =>
    b.HasType .typeImage i.operands (.image i.sampled i.dimension) id :=
  recordedType_makes _ _ _ ⟨_, rfl⟩ rfl

theorem typeSampledImage_makes (image : Ident) : Makes (typeSampledImage image) fun id b =>
    b.HasType .typeSampledImage [.ref image] (.sampledImage image) id :=
  recordedType_makes _ _ _ rfl rfl

theorem typeFunction_progress (result : Ident) (parameters : List Ident) :
    Relates Progress (typeFunction result parameters) :=
  (recordedType_makes _ _ (.function result parameters) rfl rfl).progress

/-! ## Arrays -/

theorem cached_makes {κ : Type} [BEq κ] {key : κ} (table : Builder → List (κ × Ident))
    (added : ∀ b id b', b.Tidy → (table b).lookup key = none →
      Ends make b id b' → b'.Tidy ∧ b.Later b' ∧ (table b').lookup key = some id) : Makes (do
      match (table (← get)).lookup key with
      | some id => return id
      | none => make : Emit Ident) fun id b => (table b).lookup key = some id := by
  intro b id b' ends tidy
  obtain ⟨_, b0, ⟨rfl, rfl⟩, ends⟩ := ends_then Prod.mk.inj ends
  cases found : (table b).lookup key with
  | some known =>
    rw [found] at ends
    obtain ⟨rfl, rfl⟩ := ends_pure ends
    exact ⟨tidy, .refl _, found⟩
  | none =>
    rw [found] at ends
    exact added b id b' tidy found ends

/-- What making a type comes to before its form is remembered: it is there already, possibly with a
stride that is not asked for, or it is declared. -/
def TypeMade (b : Builder) (op : Opcode) (operands : List Operand) (form : TypeForm) (id : Ident)
    (b₁ : Builder) : Prop :=
  (form.stride? = none ∧ b = b₁ ∧ ∃ f, b.form? id = some f ∧ f.strip = form.strip) ∨
    id = b.output.bound ∧ b₁ = (b.addType op operands form).withTypes b.types

theorem stridedType_made (tidy : b.Tidy) (op : Opcode) (operands : List Operand) (form : TypeForm)
    (new : form.Spells op operands) (ends : Ends (stridedType op operands form.stride?) b id b1) :
    b.TypeMade op operands form id b1 := by
  cases own : form.stride? with
  | some stride =>
    rw [own] at ends
    obtain ⟨rfl, rfl⟩ := Prod.mk.inj ends
    refine .inr ⟨rfl, ?_⟩
    simp only [addType, withTypes, own]
    rfl
  | none =>
    rw [own] at ends
    have other : op ≠ .typeForwardPointer := by
      rintro rfl
      simpa [declaredForm] using new.declared
    rcases sharedType_cases tidy other operands with ⟨id', finds, run⟩ | ⟨-, run⟩
    · cases run.symm.trans ends
      obtain ⟨f, found, same, -⟩ := finds.known tidy new
      exact .inl ⟨own, rfl, f, found, same⟩
    · exact .inr (distinctType_adds own (run.symm.trans ends))

theorem entered_makes (tidy : b.Tidy) (form : TypeForm)
    (new : form.Spells op operands) (declared : form.isAnnounced = false)
    {push : Ident → Builder → Builder} (post : Ident → Builder → Prop)
    (types : ∀ id b types, push id (b.withTypes types) = (push id b).withTypes types)
    (made : ∀ id b1, Ends make b id b1 → b.TypeMade op operands form id b1)
    (pushed : ∀ b1 id f, b1.Tidy → (b1.arrayTypes, b1.runtimeArrayTypes, b1.handleTypes) =
      (b.arrayTypes, b.runtimeArrayTypes, b.handleTypes) → b1.form? id = some f →
      f.strip = form.strip → (∀ n, form.stride? = some n → f = form) →
      (push id b1).Tidy ∧ b1.Later (push id b1) ∧ post id (push id b1)) (ends : Ends (do
      let id ← make
      modify (push id)
      record id form
      return id : Emit Ident) b id b') : b'.Tidy ∧ b.Later b' ∧ post id b' := by
  obtain ⟨id, b1, first, _, b2, second, ends⟩ := ends_bind₂ ends
  obtain ⟨_, b3, third, ends⟩ := ends_bind ends
  obtain ⟨rfl, rfl⟩ := ends_pure ends
  obtain ⟨-, rfl⟩ := Prod.mk.inj second
  have same : ∀ b1 : Builder, (push id b1).types = b1.types := fun b1 => by
    have := congrArg Builder.types (types id b1 b1.types)
    exact this
  rcases made id b1 first with ⟨noStride, rfl, f, known, agree⟩ | ⟨rfl, rfl⟩
  · have found : (push id b).form? id = some f := by rw [form?, same, ← form?, known]
    obtain rfl := record_known third (by simp [found])
    exact pushed b id f tidy rfl known agree fun _ some_ => by simp [noStride] at some_
  · have pushes := types b.output.bound (b.addType op operands form)
    obtain rfl := (record_unknown third (by rw [form?, same]; exact tidy.form?_bound))
    obtain ⟨done, later, holds⟩ := pushed _ _ _ (tidy.addType new declared) rfl
      (form?_addType b op operands form) rfl fun _ _ => rfl
    rw [pushes]
    exact pushes _ ▸ ⟨done, tidy.later_addType.trans later, holds⟩

theorem typeArray_makes (element length : Ident) (stride : Option Nat) :
    Makes (typeArray element length stride) fun id b =>
      b.arrayTypes.lookup (element, length, stride) = some id := by
  refine cached_makes arrayTypes fun b id b' tidy found => ?_
  refine entered_makes tidy (.array element length stride) rfl rfl
    (fun id b => b.arrayTypes.lookup (element, length, stride) = some id) (fun _ _ _ => rfl)
    (fun id b1 => stridedType_made tidy .typeArray _ (.array element length stride) rfl) ?_
  intro b1 id f tidy1 tables known agree exact_
  have array : b1.TrueArray element length stride id := by
    cases f <;> cases agree
    exact ⟨_, known, fun n some_ => by cases exact_ n some_; exact some_⟩
  have later : b1.Later { b1 with arrayTypes :=
    ((element, length, stride), id) :: b1.arrayTypes } :=
    { Later.refl b1 with arrayTypes := .cons ((Prod.mk.inj tables).1 ▸ found) id }
  refine ⟨tidy1.laterTables later rfl rfl { Fills.nothing rfl with arrays := ?_ }, later, by simp⟩
  exact fun _ _ _ _ found => (lookup_cons_cases found).symm.imp_right fun | ⟨rfl, rfl⟩ => array

theorem typeRuntimeArray_makes (element : Ident) (stride : Option Nat) :
    Makes (typeRuntimeArray element stride) fun id b =>
      b.runtimeArrayTypes.lookup (element, stride) = some id := by
  refine cached_makes runtimeArrayTypes fun b id b' tidy found => ?_
  refine entered_makes tidy (.runtimeArray element stride) rfl rfl
    (fun id b => b.runtimeArrayTypes.lookup (element, stride) = some id) (fun _ _ _ => rfl)
    (fun id b1 => stridedType_made tidy .typeRuntimeArray _ (.runtimeArray element stride) rfl) ?_
  intro b1 id f tidy1 tables known agree exact_
  have array : b1.TrueRuntimeArray element stride id := by
    cases f <;> cases agree
    exact ⟨_, known, fun n some_ => by cases exact_ n some_; exact some_⟩
  have later : b1.Later
      { b1 with runtimeArrayTypes := ((element, stride), id) :: b1.runtimeArrayTypes } :=
    { Later.refl b1 with
      runtimeArrayTypes := .cons ((Prod.mk.inj (Prod.mk.inj tables).2).1 ▸ found) id }
  refine ⟨tidy1.laterTables later rfl rfl { Fills.nothing rfl with runtimeArrays := ?_ },
    later, by simp⟩
  exact fun _ _ _ found => (lookup_cons_cases found).symm.imp_right fun | ⟨rfl, rfl⟩ => array

/-! ## Handles, pointers and structures -/

theorem handleType_makes (op : Opcode) (form : TypeForm) (new : form.Spells op [])
    (rigid : form.isRigid) : Makes (handleType op form) fun id b => b.handleTypes.lookup op =
    some id := by
  obtain ⟨declared, noStride⟩ := TypeForm.plain_of_isRigid rigid
  refine cached_makes handleTypes fun b id b' tidy found => ?_
  refine entered_makes tidy form new declared
    (fun id b => b.handleTypes.lookup op = some id) (fun _ _ _ => rfl)
    (fun id b1 => (.inr <| distinctType_adds noStride ·)) ?_
  intro b1 id f tidy1 tables _ _ _
  have fresh : b1.handleTypes.lookup op = none := (Prod.mk.inj (Prod.mk.inj tables).2).2 ▸ found
  have later : b1.Later { b1 with handleTypes := (op, id) :: b1.handleTypes } :=
    { Later.refl b1 with handleTypes := .cons fresh id }
  refine ⟨?_, later, by simp⟩
  exact tidy1.laterTables later rfl rfl { Fills.nothing rfl with }

variable (storage : StorageClass)

theorem typePointer_progress (pointee : Ident) :
    Relates Progress (typePointer storage pointee) := by
  refine (cached_makes pointerTypes fun b id b' tidy _ => ?_).progress
  refine entered_makes tidy (.pointer storage (some pointee)) rfl rfl
    (fun id b => b.pointerTypes.lookup (storage, pointee) = some id) (fun _ _ _ => rfl)
    (fun id b1 => stridedType_made tidy .typePointer _ (.pointer storage (some pointee)) rfl) ?_
  intro b1 id f tidy1 _ known agree _
  obtain rfl := TypeForm.eq_of_strip rfl agree
  have later : b1.Later { b1 with pointerTypes := ((storage, pointee), id) :: b1.pointerTypes } :=
    { Later.refl b1 with }
  refine ⟨tidy1.laterTables later rfl rfl { Fills.nothing rfl with pointers := ?_ }, later, by simp⟩
  exact fun _ _ _ found => (lookup_cons_cases found).symm.imp_right fun | ⟨rfl, rfl⟩ => known

theorem announcePointer_progress :
    Relates Progress (announcePointer storage) := by
  intro b id b' ends tidy
  obtain ⟨id, b1, first, _, b2, second, ends⟩ := ends_bind₂ ends
  obtain ⟨_, b3, third, ends⟩ := ends_bind ends
  obtain ⟨rfl, rfl⟩ := ends_pure ends
  obtain ⟨rfl, rfl⟩ := Prod.mk.inj first
  obtain ⟨-, rfl⟩ := Prod.mk.inj second
  obtain rfl := record_unknown third tidy.form?_bound
  exact ⟨tidy.addPointer storage, tidy.later_addPointer storage⟩

theorem completePointer_progress (id pointee : Ident) :
    Relates Progress (completePointer id pointee) := by
  intro b u b' ends tidy
  replace ends := ends_get ends
  split at ends
  · rename_i storage announced
    cases ends
    exact ⟨tidy.addPointee announced pointee, Tidy.later_addPointee announced pointee⟩
  · cases ends

/-- A decoration that an id gets when it is made, which settles what it is about as expected. -/
structure OwnNote (id : Ident) (expected : Option Nat → Decoration → Decoration × Option Operand)
    (a : Annotation) : Prop where
  own : a.isFirm → a.target = id
  other : a.decoration ≠ .arrayStride
  settled : ∀ topic, a.decoration.topic? = some topic →
    (a.decoration, a.argument) = expected a.member topic

theorem OwnNote.eq {a' : Annotation} {topic : Ident × Option Nat × Decoration}
    (h : OwnNote id expected a) (h' : OwnNote id expected a') (found : a.topic? = some topic)
    (found' : a'.topic? = some topic) : a = a' := by
  obtain ⟨d, settles, rfl⟩ := Option.map_eq_some_iff.1 found
  obtain ⟨d', settles', same⟩ := Option.map_eq_some_iff.1 found'
  simp only [Prod.mk.injEq] at same
  obtain ⟨target, member, rfl⟩ := same
  have first := h.settled _ settles
  rw [← member, ← h'.settled _ settles', Prod.mk.injEq] at first
  cases a
  cases a'
  simp_all

/-- What has just been made may be decorated. -/
theorem Adorned.made (h : b1.Adorned (OwnNote b.output.bound expected) b') (later : b.Later b1)
    (tidy : b1.Tidy) (plain : b1.output.annotations = b.output.annotations)
    (new : b.output.bound < b1.output.bound) : b'.Tidy ∧ b.Later b' := by
  obtain ⟨extra, notes, kinds⟩ := h.notes
  have below : b.output.bound < b'.output.bound := Nat.lt_of_lt_of_le new h.bound
  refine ⟨h.tidy tidy (fun a own => own.other) fun a own isFirm => ?_, h.later later
    ⟨extra, plain ▸ notes, fun a mem a' mem' _ => (kinds a mem).eq (kinds a' mem'),
    fun a mem isFirm => ?_⟩⟩
  · rw [own.own isFirm]
    exact below
  · rw [(kinds a mem).own isFirm]
    exact ⟨Nat.le_refl _, below⟩

theorem typeStruct_adorned (kind : Annotation → Prop)
    (ends : Ends (typeStruct members text) b id b') (tidy : b.Tidy) : id = b.output.bound ∧
      (b.addType .typeStruct (Operand.refs members) (.struct members)).Adorned kind b' := by
  obtain ⟨id, b1, first, _, b2, second, ends⟩ := ends_bind₂ ends
  obtain ⟨_, b3, third, ends⟩ := ends_bind ends
  obtain ⟨rfl, rfl⟩ := ends_pure ends
  have noStride : (TypeForm.struct members).stride? = none := rfl
  obtain ⟨rfl, rfl⟩ := distinctType_adds noStride first
  have named : Adorned kind _ b2 := addName_adorned _ _ _ _ second
  obtain rfl := record_unknown third (by rw [form?, named.types]; exact tidy.form?_bound)
  rw [named.types]
  exact ⟨rfl, { named with types := rfl }⟩

theorem typeStruct_makes
    (ends : Ends (typeStruct members text) b id b1) (notes : b1.Adorned (OwnNote id expected) b2)
    (tidy : b.Tidy) : b2.Tidy ∧ b.Later b2 ∧ id = b.output.bound ∧
      b2.form? id = some (.struct members) := by
  obtain ⟨rfl, declared⟩ := typeStruct_adorned (OwnNote id expected) ends tidy
  have adorned := trans_of _ declared notes
  obtain ⟨tidy', later⟩ := adorned.made tidy.later_addType (tidy.addType rfl rfl)
    (append_nil _) (Nat.lt_succ_self _)
  refine ⟨tidy', later, rfl, ?_⟩
  rw [form?, adorned.types]
  exact form?_addType _ _ _ _

/-! ## Constants and variables -/

/-- The step makes the id that it gives after all that it decorates. -/
def Brings (c : Emit Ident) : Prop := ∀ b id b', Ends c b id b' → b.Tidy → ∃ b₁, b.Later b₁ ∧
  id = b₁.output.bound ∧ b'.Tidy ∧ b₁.Later b' ∧
    b'.output.annotations = b₁.output.annotations ∧ b₁.output.bound < b'.output.bound

theorem Brings.progress (h : Brings c) : Relates Progress c :=
  fun b id b' ends tidy => by
    obtain ⟨b1, first, -, tidy', second, -⟩ := h b id b' ends tidy
    exact ⟨tidy', first.trans second⟩

theorem Brings.adorned (h : Brings c) {b'' : Builder}
    {expected : Option Nat → Decoration → Decoration × Option Operand} (ends : Ends c b id b')
    (adorned : b'.Adorned (OwnNote id expected) b'') : b.Progress b'' := fun tidy => by
  obtain ⟨b1, first, rfl, tidy', second, plain, new⟩ := h b id b' ends tidy
  obtain ⟨tidy'', later⟩ := adorned.made second tidy' plain new
  exact ⟨tidy'', first.trans later⟩

theorem Brings.noted (h : Brings c) {f : Ident → Emit α}
    (adorns : ∀ id, Relates (Adorned (OwnNote id expected)) (f id)) :
    Relates Progress (c >>= f) := by
  intro b a b'' ends
  obtain ⟨id, b', first, second⟩ := ends_bind ends
  exact h.adorned first (adorns id b' a b'' second)

theorem declareConstant_brings (op : Opcode) (type : Ident) (operands : List Operand)
    (value : declaredForm op operands = none) (other : op ≠ .constant) :
    Brings (declareConstant op type operands) := fun b id b' ends tidy => by
  obtain ⟨rfl, rfl⟩ := Prod.mk.inj ends
  obtain ⟨tidy', later⟩ := tidy.addValue op type operands value (.refl _) rfl rfl rfl
    (absurd · other)
    (.nothing rfl)
  exact ⟨b, .refl b, rfl, tidy', later, rfl, Nat.lt_succ_self _⟩

theorem Tidy.literals_bound (tidy : b.Tidy) : b.literals.lookup b.output.bound = none := by
  cases found : b.literals.lookup b.output.bound with
  | none => rfl
  | some bits =>
    obtain ⟨type, declared | declared⟩ := tidy.literals _ _ found <;>
      exact absurd (tidy.distinct.below _ declared _ rfl) (Nat.lt_irrefl _)

/-- A constant with its bits is declared. -/
def addBits (b : Builder) (type : Ident) (bits : Nat) : Builder :=
  { b.addValue .constant type [b.literalOperand type bits] with
    scalars := ((type, bits), b.output.bound) :: b.scalars
    literals := (b.output.bound, bits) :: b.literals }

theorem hasBits_addBits (b : Builder) (type : Ident) (bits : Nat) :
    (b.addBits type bits).HasBits type b.output.bound bits := by
  have declared : (b.addBits type bits).HasConstant .constant type b.output.bound
      [b.literalOperand type bits] := mem_append_right _ mem_cons_self
  unfold literalOperand at declared
  split at declared
  · exact .inr declared
  · exact .inl declared

theorem Tidy.addBits (tidy : b.Tidy) {bits : Nat} (new : b.scalars.lookup (type, bits) = none) :
    (b.addBits type bits).Tidy ∧ b.Later (b.addBits type bits) := by
  have later : (b.addValue .constant type [b.literalOperand type bits]).Later
    (b.addBits type bits) :=
    { Later.refl _ with scalars := .cons new _, literals := .cons tidy.literals_bound _ }
  have literal : (b.addBits type bits).literal? b.output.bound = some bits := by
    simp [Builder.addBits, literal?]
  refine tidy.addValue _ _ _ rfl later rfl rfl rfl (fun _ => Option.isSome_of_eq_some literal)
    { Fills.nothing rfl with scalars := fun _ _ _ found => ?_, literals := fun _ _ found => ?_ }
  · refine (lookup_cons_cases found).symm.imp_right ?_
    rintro ⟨⟨⟩, rfl⟩
    refine .inl ⟨b.hasBits_addBits type bits, literal, fun below => ?_⟩
    rw [((Tidy.later_addValue _ _ _ _).trans later).literalOperand below]
    exact mem_append_right _ mem_cons_self
  · refine (lookup_cons_cases found).symm.imp_right ?_
    rintro ⟨rfl, rfl⟩
    exact ⟨type, b.hasBits_addBits type _⟩

theorem constBits_makes (type : Ident) (bits : Nat) : Makes (constBits type bits) fun id b =>
    b.scalars.lookup (type, bits) = some id := by
  refine cached_makes scalars fun b id b' tidy new ends => ?_
  obtain ⟨rfl, rfl⟩ := Prod.mk.inj ends
  have made := tidy.addBits new
  exact ⟨made.1, made.2, by simp⟩

theorem constBool_progress (value : Bool) : Relates Progress (constBool value) := by
  intro b id b' ends tidy
  obtain ⟨type, b1, first, ends⟩ := ends_bind ends
  obtain ⟨tidy1, later1, bool⟩ := typeBool_makes b type b1 first tidy
  obtain ⟨_, b2, ⟨rfl, rfl⟩, ends⟩ := ends_then Prod.mk.inj ends
  split at ends
  · obtain ⟨rfl, rfl⟩ := ends_pure ends
    exact ⟨tidy1, later1⟩
  · rename_i new
    obtain ⟨rfl, rfl⟩ := Prod.mk.inj ends
    refine And.imp_right later1.trans ?_
    refine tidy1.addValue (if value then .constantTrue else .constantFalse) type [] ?_
      { Later.refl _ with scalars := .cons new _ } rfl rfl rfl (fun constant => ?_)
      { Fills.nothing rfl with scalars := fun _ _ _ found => ?_ }
    · cases value <;> rfl
    · cases value <;> cases constant
    · refine (lookup_cons_cases found).symm.imp_right ?_
      rintro ⟨⟨⟩, rfl⟩
      refine .inr ⟨bool.known, ?_⟩
      cases value with
      | true => exact .inl ⟨rfl, mem_append_right _ mem_cons_self⟩
      | false => exact .inr ⟨rfl, mem_append_right _ mem_cons_self⟩

theorem constComposite_makes (type : Ident) (parts : List Ident) : Makes (constComposite type parts)
    fun id b => b.composites.lookup (type, parts) = some id := by
  refine cached_makes composites fun b id b1 tidy new ends => ?_
  obtain ⟨rfl, rfl⟩ := Prod.mk.inj ends
  rw [← and_assoc]
  refine ⟨tidy.addValue .constantComposite type (Operand.refs parts) rfl
    { Later.refl _ with composites := .cons new _ } rfl rfl rfl (by simp)
    { Fills.nothing rfl with composites := ?_ }, by simp⟩
  exact fun _ _ _ found => (lookup_cons_cases found).symm.imp_right fun
    | ⟨rfl, rfl⟩ => mem_append_right _ mem_cons_self

theorem constNull_progress (type : Ident) : Relates Progress (constNull type) := by
  refine (cached_makes nulls fun b id b1 tidy new ends => ?_).progress
  obtain ⟨rfl, rfl⟩ := Prod.mk.inj ends
  rw [← and_assoc]
  refine ⟨tidy.addValue .constantNull type [] rfl { Later.refl _ with } rfl rfl rfl (by simp)
    { Fills.nothing rfl with nulls := ?_ }, by simp⟩
  exact fun _ _ found => (lookup_cons_cases found).symm.imp_right fun
    | ⟨rfl, rfl⟩ => mem_append_right _ mem_cons_self

/-- The module has the integer, and whoever asks for it gets the id. -/
def HasInteger (b : Builder) (width : Nat) (signed : Bool) (bits : Nat) (id : Ident) : Prop :=
  ∃ type, b.HasType .typeInt [.literal width, .literal signed.toNat] (.int width signed) type ∧
    b.scalars.lookup (type, bits) = some id

section HasInteger

variable {width bits : Nat} {signed : Bool} {id : Ident}

theorem constInteger_makes (width : Nat) (signed : Bool) (bits : Nat) :
    Makes (typeInt width signed >>= fun type => constBits type bits)
      fun id b => b.HasInteger width signed bits id := by
  intro b id b' ends tidy
  obtain ⟨type, b1, first, ends⟩ := ends_bind ends
  obtain ⟨tidy1, later1, hasType⟩ := typeInt_makes width signed b type b1 first tidy
  obtain ⟨tidy2, later2, found⟩ := constBits_makes type bits b1 id b' ends tidy1
  exact ⟨tidy2, later1.trans later2, type, hasType.later later2, found⟩

theorem HasInteger.later (h : b.HasInteger width signed bits id) (later : b.Later b') :
    b'.HasInteger width signed bits id := by
  obtain ⟨type, hasType, found⟩ := h
  exact ⟨type, hasType.later later, later.scalars _ _ found⟩

theorem HasInteger.unique {id' : Ident} (h : b.HasInteger width signed bits id)
    (h' : b.HasInteger width signed bits id') : id = id' := by
  obtain ⟨type, hasType, found⟩ := h
  obtain ⟨type', hasType', found'⟩ := h'
  obtain rfl := hasType.finds.unique hasType'.finds
  exact Option.some.inj (found.symm.trans found')

theorem HasInteger.number (h : b.HasInteger width signed bits id) (tidy : b.Tidy) :
    ∃ type, b.form? type = some (.int width signed) ∧ b.TrueNumber type bits id := by
  obtain ⟨type, hasType, found⟩ := h
  exact ⟨type, hasType.known, tidy.number hasType.known found⟩

end HasInteger

theorem constNumber_progress (type : Ident) (value : Nat) :
    Relates Progress (constNumber type value) := by
  refine .bind .getEmit fun b => ?_
  split
  · exact (constBits_makes type _).progress
  · exact constBool_progress _
  · exact (constBits_makes type value).progress

theorem constFilledWithin_progress (depth : Nat) (type : Ident) (value : Nat) :
    Relates Progress (constFilledWithin depth type value) := by
  induction depth generalizing type with
  | zero => exact constNumber_progress type value
  | succ depth ih =>
    refine .bind .getEmit fun b => ?_
    split
    · exact .bind (ih _) fun part => (constComposite_makes type _).progress
    · exact constNumber_progress type value

theorem constFilled_progress (type : Ident) (value : Nat) :
    Relates Progress (constFilled type value) :=
  .bind .getEmit fun _ => constFilledWithin_progress _ type value

theorem specBits_brings (type : Ident) (bits : Nat) : Brings (specBits type bits) := by
  intro b id b' ends
  replace ends := ends_get ends
  split at ends
  · exact declareConstant_brings _ type _ (by split <;> rfl) (by split <;> simp) b id b' ends
  · exact declareConstant_brings _ type _ rfl (by simp) b id b' ends

theorem specComposite_brings (type : Ident) (parts : List Ident) :
    Brings (specComposite type parts) := declareConstant_brings _ type _ rfl (by simp)

theorem variableOf_brings (pointerType : Ident) (storage : StorageClass) (init : Option Ident) :
    Brings (variableOf pointerType storage init) := by
  intro b id b' ends tidy
  obtain ⟨id, b1, first, _, b2, second, ends⟩ := ends_bind₂ ends
  obtain ⟨rfl, rfl⟩ := ends_pure ends
  obtain ⟨_, b3, ⟨rfl, rfl⟩, second⟩ := ends_then Prod.mk.inj second
  obtain ⟨rfl, rfl⟩ := Prod.mk.inj first
  split at second
  · obtain ⟨-, rfl⟩ := Prod.mk.inj second
    refine ⟨b, .refl b, rfl, ?_⟩
    rw [← and_assoc]
    refine ⟨Calm.progress (.of_output b (Nat.le_succ _) rfl) tidy, rfl,
      Nat.lt_succ_self _⟩
  · obtain ⟨-, rfl⟩ := Prod.mk.inj second
    obtain ⟨tidy', later⟩ := tidy.addValue .var pointerType _ rfl (.refl _) rfl rfl rfl (by simp)
      (.nothing rfl)
    exact ⟨b, .refl b, rfl, tidy', later, rfl, Nat.lt_succ_self _⟩

theorem globalVariable_brings (type : Ident) (storage : StorageClass) (text : String)
    (init : Option Ident) : Brings (globalVariable type storage text init) := by
  intro b id b' ends tidy
  obtain ⟨pointer, b1, first, var, b2, second, ends⟩ := ends_bind₂ ends
  obtain ⟨tidy1, later1⟩ := typePointer_progress storage type b pointer b1 first tidy
  obtain ⟨b0, before, made, tidy2, later2, plain, new⟩ :=
    variableOf_brings pointer storage init b1 var b2 second tidy1
  obtain ⟨_, b3, third, ends⟩ := ends_bind ends
  replace ends := ends_get ends
  have listed : id = var ∧ ∀ kind, b2.Adorned kind b' := by
    have named : ∀ kind, b2.Adorned kind b3 := fun kind => addName_adorned _ b2 _ b3 third
    split at ends
    · cases ends
      refine ⟨rfl, fun kind => trans_of (Adorned kind) (named kind) ?_⟩
      exact .of_output b3 (Nat.le_refl _) rfl
    · cases ends
      exact ⟨rfl, named⟩
  obtain ⟨rfl, adorned⟩ := listed
  obtain ⟨tidy', later⟩ := Calm.progress (adorned _) tidy2
  obtain ⟨extra, notes, none⟩ := (adorned fun _ => False).notes
  obtain rfl := eq_nil_iff_forall_not_mem.2 none
  exact ⟨b0, later1.trans before, made, tidy', later2.trans later, by rw [notes, append_nil, plain],
    Nat.lt_of_lt_of_le new later.bound⟩

end Builder

end ShaderGen
