import ShaderGen.Proofs.Typing.Demands

/-!
# What a builder knows about its module

A builder remembers the forms of types, the ids of arrays and constants, and the literals of
constants. `Builder.Tidy` says that these memories are true of the module: every form is that of a
declaration of the module, and so on. `Builder.Later` says what the builder of a module has in
common with every later one: declarations stay where they are, and what has been remembered is not
forgotten. The one thing that changes is that a pointer type that was announced gets its pointee.
-/

namespace ShaderGen

open List

variable {id type : Ident} {i : Instruction}

/-! ## Tables that grow -/

section Kept

variable {κ ν : Type} [BEq κ]

/-- What the one table holds, the other one holds as well. -/
def Kept (old new : List (κ × ν)) : Prop := ∀ k v, old.lookup k = some v → new.lookup k = some v

theorem Kept.refl (table : List (κ × ν)) : Kept table table := fun _ _ => id

theorem Kept.trans {t1 t2 t3 : List (κ × ν)} (h : Kept t1 t2) (g : Kept t2 t3) : Kept t1 t3 :=
  fun k v found => g k v (h k v found)

theorem Kept.cons [LawfulBEq κ] {k : κ} {table : List (κ × ν)} (fresh : table.lookup k = none)
    (v : ν) : Kept table ((k, v) :: table) := by
  intro k' v' found
  have other : k' ≠ k := by
    rintro rfl
    simp [fresh] at found
  rw [lookup_cons_of_ne other, found]

theorem lookup_cons_cases [LawfulBEq κ] {k k' : κ} {v v' : ν} {table : List (κ × ν)}
    (found : ((k, v) :: table).lookup k' = some v') : k' = k ∧ v' = v ∨
    table.lookup k' = some v' := by
  by_cases same : k' = k
  · subst same
    simp at found
    exact .inl ⟨rfl, found.symm⟩
  · rw [lookup_cons_of_ne same] at found
    exact .inr found

end Kept

theorem exists_mapM {α β : Type} {f : α → Option β} {xs : List α}
    (h : ∀ x ∈ xs, ∃ y, f x = some y) : ∃ ys, xs.mapM f = some ys ∧ ys.length = xs.length ∧
      ∀ (k : Nat) (x : α) (y : β), xs[k]? = some x → ys[k]? = some y → f x = some y := by
  induction xs with
  | nil => exact ⟨[], rfl, rfl, by simp⟩
  | cons x rest ih =>
    obtain ⟨y, hy⟩ := h x mem_cons_self
    obtain ⟨ys, hys, length, each⟩ := ih fun a mem => h a (mem_cons_of_mem x mem)
    refine ⟨y :: ys, by simp [mapM_cons, hy, hys], by simp [length], fun k a c ha hc => ?_⟩
    cases k with
    | zero =>
      cases ha
      cases hc
      exact hy
    | succ k => exact each k a c ha hc

/-! ## Declarations of types -/

/-- The type that a declaration makes. The stride of an array is not part of its declaration. -/
def declaredForm : Opcode → List Operand → Option TypeForm
  | .typeVoid, [] => some .void
  | .typeBool, [] => some .bool
  | .typeInt, [.literal width, .literal signed] => some (.int width (signed != 0))
  | .typeFloat, [.literal width] => some (.float width)
  | .typeVector, [.ref component, .literal count] => some (.vector component count)
  | .typeMatrix, [.ref column, .literal count] => some (.matrix column count)
  | .typeArray, [.ref element, .ref length] => some (.array element length none)
  | .typeRuntimeArray, [.ref element] => some (.runtimeArray element none)
  | .typeStruct, members => some (.struct (Operand.ids members))
  | .typePointer, [.storage storage, .ref pointee] => some (.pointer storage (some pointee))
  | .typeImage, .ref sampled :: .dimension dimension :: _ => some (.image sampled dimension)
  | .typeSampledImage, [.ref image] => some (.sampledImage image)
  | .typeSampler, [] => some .sampler
  | .typeAccelerationStructureKHR, [] => some .accelerationStructure
  | .typeRayQueryKHR, [] => some .rayQuery
  | .typeFunction, .ref result :: parameters => some (.function result (Operand.ids parameters))
  | _, _ => none

/-- The type that an instruction declares. -/
def Instruction.form? (i : Instruction) : Option TypeForm := declaredForm i.op i.operands

namespace TypeForm

/-- The form without strides. -/
def strip : TypeForm → TypeForm
  | .array element length _ => .array element length none
  | .runtimeArray element _ => .runtimeArray element none
  | form => form

/-- The stride of an array. -/
def stride? : TypeForm → Option Nat
  | .array _ _ stride | .runtimeArray _ stride => stride
  | _ => none

/-- A pointer type without a pointee. -/
def isAnnounced : TypeForm → Bool
  | .pointer _ none => true
  | _ => false

/-- The operation and the operands declare a type of the form. Not all that an image type says is
part of its form, and the stride of an array is not part of its declaration. -/
def Spells (form : TypeForm) (op : Opcode) (operands : List Operand) : Prop :=
  match form with
  | .void => (op, operands) = (.typeVoid, [])
  | .bool => (op, operands) = (.typeBool, [])
  | .int width signed => (op, operands) = (.typeInt, [.literal width, .literal signed.toNat])
  | .float width => (op, operands) = (.typeFloat, [.literal width])
  | .vector component count => (op, operands) = (.typeVector, [.ref component, .literal count])
  | .matrix column count => (op, operands) = (.typeMatrix, [.ref column, .literal count])
  | .array element length _ => (op, operands) = (.typeArray, [.ref element, .ref length])
  | .runtimeArray element _ => (op, operands) = (.typeRuntimeArray, [.ref element])
  | .struct members => (op, operands) = (.typeStruct, Operand.refs members)
  | .pointer storage (some pointee) => (op, operands) =
      (.typePointer, [.storage storage, .ref pointee])
  | .pointer _ none => False
  | .image sampled dimension =>
    ∃ rest, (op, operands) = (.typeImage, .ref sampled :: .dimension dimension :: rest)
  | .sampledImage of => (op, operands) = (.typeSampledImage, [.ref of])
  | .sampler => (op, operands) = (.typeSampler, [])
  | .accelerationStructure => (op, operands) = (.typeAccelerationStructureKHR, [])
  | .rayQuery => (op, operands) = (.typeRayQueryKHR, [])
  | .function result parameters => (op, operands) =
      (.typeFunction, Operand.refs (result :: parameters))

theorem Spells.declared {form : TypeForm} {op : Opcode} {operands : List Operand}
    (h : form.Spells op operands) : declaredForm op operands = some form.strip := by
  cases form with
  | int width signed =>
    cases h
    cases signed <;> rfl
  | struct members =>
    cases h
    exact congrArg (some ∘ TypeForm.struct) (Operand.ids_refs members)
  | function result parameters =>
    cases h
    exact congrArg (some ∘ TypeForm.function result) (Operand.ids_refs parameters)
  | image sampled dimension =>
    obtain ⟨rest, same⟩ := h
    cases same
    rfl
  | pointer storage pointee =>
    cases pointee <;> cases h
    rfl
  | _ =>
    cases h
    rfl

end TypeForm

/-- The decoration that gives an array its stride. -/
def strideNote (id : Ident) (stride : Nat) : Annotation :=
  { target := id, decoration := .arrayStride, argument := some (.literal stride) }

/-- Decorations that an id or a member has once at most. -/
def Decoration.singular : List Decoration :=
  [.offset, .arrayStride, .matrixStride, .location, .component, .binding, .descriptorSet,
   .inputAttachmentIndex, .xfbBuffer, .xfbStride, .specId, .builtIn, .rowMajor]

/-- What the decoration settles, if that is settled only once. Both ways to store a matrix settle
the same. -/
def Decoration.topic? (d : Decoration) : Option Decoration :=
  if d = .colMajor then some .rowMajor else if d ∈ singular then some d else none

namespace Annotation

/-- A decoration of a member, or one that settles something: what only the steps that make an id
add. -/
def isFirm (a : Annotation) : Bool := a.member.isSome || a.decoration.topic?.isSome

def topic? (a : Annotation) : Option (Ident × Option Nat × Decoration) :=
  a.decoration.topic?.map fun topic => (a.target, a.member, topic)

/-- Nothing is settled in two ways. -/
def Agree (notes : List Annotation) : Prop :=
  ∀ a ∈ notes, ∀ a' ∈ notes, ∀ topic, a.topic? = some topic → a'.topic? = some topic → a = a'

variable {a a' : Annotation} {topic : Ident × Option Nat × Decoration}

theorem isFirm_of_stride (h : a.decoration = .arrayStride) : a.isFirm := by
  rw [isFirm, h, Bool.or_eq_true]
  exact .inr rfl

theorem firm_of_topic (h : a.topic? = some topic) : a.isFirm ∧ topic.1 = a.target := by
  obtain ⟨d, found, rfl⟩ := Option.map_eq_some_iff.1 h
  exact ⟨by simp [isFirm, found], rfl⟩

theorem Agree.append {notes notes' : List Annotation} (h : Agree notes) (g : Agree notes')
    (apart : ∀ a ∈ notes, ∀ a' ∈ notes', a.isFirm → a'.isFirm → a.target ≠ a'.target) :
    Agree (notes ++ notes') := by
  intro a ha a' ha' topic first second
  have firm := firm_of_topic first
  have firm' := firm_of_topic second
  have same : a.target = a'.target := firm.2.symm.trans firm'.2
  rcases mem_append.1 ha with ha | ha <;> rcases mem_append.1 ha' with ha' | ha'
  · exact h a ha a' ha' topic first second
  · exact absurd same (apart a ha a' ha' firm.1 firm'.1)
  · exact absurd same.symm (apart a' ha' a ha firm'.1 firm.1)
  · exact g a ha a' ha' topic first second

end Annotation

open Annotation (Agree firm_of_topic isFirm_of_stride)

namespace Builder

variable {b b' : Builder} {kind : Annotation → Prop} {bound : Ident} {globals : List Instruction}
  {bits : Nat}

/-! ## True memories -/

/-- The strides that the module gives a type. -/
def strideNotes (b : Builder) (id : Ident) : List Annotation :=
  b.output.annotations.filter fun a => a.target == id && a.decoration == .arrayStride

/-- The module declares the constant. -/
def HasConstant (b : Builder) (op : Opcode) (type id : Ident) (operands : List Operand) : Prop :=
  { op, type := some type, result := some id, operands } ∈ b.output.globals

/-- The declaration of a constant with the given bits, in one word or in two. -/
def HasBits (b : Builder) (type id : Ident) (bits : Nat) : Prop :=
  b.HasConstant .constant type id [.literal (bits % wordCount)] ∨
    b.HasConstant .constant type id [.wide bits]

/-- Every id is declared once. -/
structure Distinct (bound : Ident) (globals : List Instruction) : Prop where
  below : ∀ i ∈ globals, ∀ id, i.result = some id → id < bound
  once : ∀ i ∈ globals, ∀ j ∈ globals, ∀ id, i.result = some id → j.result = some id → i = j
  nameless : ∀ i ∈ globals, i.result = none → i.op = .typeForwardPointer

/-- The form is that of a declaration, with the stride that decorates it, or that of a pointer that
is announced and not declared yet. -/
structure TrueForm (b : Builder) (id : Ident) (form : TypeForm) : Prop where
  below : id < b.output.bound
  announced : form.isAnnounced → ∀ i ∈ b.output.globals, i.result ≠ some id
  announcement : ∀ storage, form = .pointer storage none →
    .announcement id storage ∈ b.output.globals
  declared : form.isAnnounced = false →
    ∃ op operands, { op, result := some id, operands } ∈ b.output.globals ∧ form.Spells op operands
  strides : b.strideNotes id = form.stride?.toList.map (strideNote id)

/-- The id is that of an array with the stride, if a stride is asked for. -/
def TrueArray (b : Builder) (element length : Ident) (stride : Option Nat) (id : Ident) : Prop :=
  ∃ stride', b.form? id = some (.array element length stride') ∧ ∀ n, stride = some n →
  stride' = some n

def TrueRuntimeArray (b : Builder) (element : Ident) (stride : Option Nat) (id : Ident) : Prop :=
  ∃ stride', b.form? id = some (.runtimeArray element stride') ∧ ∀ n, stride = some n →
  stride' = some n

/-- The id is that of a number. If its type came first, it takes as many words as the type says. -/
structure TrueNumber (b : Builder) (type : Ident) (bits : Nat) (id : Ident) : Prop where
  hasBits : b.HasBits type id bits
  literal : b.literal? id = some bits
  words : type < id → b.HasConstant .constant type id [b.literalOperand type bits]

/-- The id is that of a number or a truth value. -/
def TrueScalar (b : Builder) (type : Ident) (bits : Nat) (id : Ident) : Prop :=
  b.TrueNumber type bits id ∨ b.form? type = some .bool ∧
    (bits = 1 ∧ b.HasConstant .constantTrue type id [] ∨
      bits = 0 ∧ b.HasConstant .constantFalse type id [])

/-- What a builder remembers is true of its module. -/
structure Tidy (b : Builder) : Prop where
  distinct : Distinct b.output.bound b.output.globals
  forms : ∀ id form, b.form? id = some form → b.TrueForm id form
  /-- The forms of all declarations of types are remembered. -/
  known : ∀ i ∈ b.output.globals, i.form?.isSome → ∀ id, i.result = some id → (b.form? id).isSome
  firm : ∀ a ∈ b.output.annotations, a.isFirm → a.target < b.output.bound
  arrays : ∀ element length stride id, b.arrayTypes.lookup (element, length, stride) = some id →
    b.TrueArray element length stride id
  runtimeArrays : ∀ element stride id, b.runtimeArrayTypes.lookup (element, stride) = some id →
    b.TrueRuntimeArray element stride id
  scalars : ∀ type bits id, b.scalars.lookup (type, bits) = some id → b.TrueScalar type bits id
  pointers : ∀ storage pointee id, b.pointerTypes.lookup (storage, pointee) = some id →
    b.form? id = some (.pointer storage (some pointee))
  composites : ∀ type parts id, b.composites.lookup (type, parts) = some id →
    b.HasConstant .constantComposite type id (Operand.refs parts)
  nulls : ∀ type id, b.nulls.lookup type = some id → b.HasConstant .constantNull type id []
  literals : ∀ id bits, b.literals.lookup id = some bits → ∃ type, b.HasBits type id bits
  /-- The literals of all constants are remembered. -/
  constants : ∀ i ∈ b.output.globals, i.op = .constant → ∀ id, i.result = some id →
    (b.literal? id).isSome

/-- The decorations that have been added agree, and the firm ones are about ids that are new. -/
def Noted (b b' : Builder) : Prop := ∃ extra,
  b'.output.annotations = b.output.annotations ++ extra ∧ Annotation.Agree extra ∧
    ∀ a ∈ extra, a.isFirm → b.output.bound ≤ a.target ∧ a.target < b'.output.bound

theorem noted_of_same (h : b'.output.annotations = b.output.annotations) : b.Noted b' :=
  ⟨[], by simp [h], by simp [Agree], by simp⟩

/-- What a builder has in common with a later one. -/
structure Later (b b' : Builder) : Prop where
  demands : b.demands.Grows b'.demands
  bound : b.output.bound ≤ b'.output.bound
  deadBlocks : b.deadBlocks <+: b'.deadBlocks
  globals : b.output.globals <+: b'.output.globals
  forms : ∀ id form, b.form? id = some form → b'.form? id = some form ∨
    ∃ storage pointee, form = .pointer storage none ∧
      b'.form? id = some (.pointer storage (some pointee))
  fresh : ∀ id < b.output.bound, b.form? id = none → b'.form? id = none
  arrayTypes : Kept b.arrayTypes b'.arrayTypes
  runtimeArrayTypes : Kept b.runtimeArrayTypes b'.runtimeArrayTypes
  handleTypes : Kept b.handleTypes b'.handleTypes
  scalars : Kept b.scalars b'.scalars
  composites : Kept b.composites b'.composites
  literals : Kept b.literals b'.literals
  notes : b.Noted b'

theorem Later.refl (b : Builder) : b.Later b where
  demands := refl_of Demands.Grows _
  bound := Nat.le_refl _
  deadBlocks := prefix_rfl
  globals := prefix_rfl
  forms _ _ := .inl
  fresh _ _ := id
  arrayTypes := .refl _
  runtimeArrayTypes := .refl _
  handleTypes := .refl _
  scalars := .refl _
  composites := .refl _
  literals := .refl _
  notes := noted_of_same rfl

theorem Later.trans {b'' : Builder} (h : b.Later b') (g : b'.Later b'') : b.Later b'' where
  demands := trans_of Demands.Grows h.demands g.demands
  bound := Nat.le_trans h.bound g.bound
  deadBlocks := h.deadBlocks.trans g.deadBlocks
  globals := h.globals.trans g.globals
  forms id form found := by
    rcases h.forms id form found with same | ⟨storage, pointee, rfl, done⟩
    · exact g.forms id form same
    · rcases g.forms id _ done with same | ⟨_, _, announced, -⟩
      · exact .inr ⟨storage, pointee, rfl, same⟩
      · cases announced
  fresh id below none := g.fresh id (Nat.lt_of_lt_of_le below h.bound) (h.fresh id below none)
  arrayTypes := h.arrayTypes.trans g.arrayTypes
  runtimeArrayTypes := h.runtimeArrayTypes.trans g.runtimeArrayTypes
  handleTypes := h.handleTypes.trans g.handleTypes
  scalars := h.scalars.trans g.scalars
  composites := h.composites.trans g.composites
  literals := h.literals.trans g.literals
  notes := by
    obtain ⟨extra, notes, agree, firm⟩ := h.notes
    obtain ⟨extra', notes', agree', firm'⟩ := g.notes
    refine ⟨extra ++ extra', by rw [notes', notes, append_assoc], ?_, fun a mem isFirm => ?_⟩
    · refine agree.append agree' fun a ha a' ha' isFirm isFirm' => Nat.ne_of_lt ?_
      exact Nat.lt_of_lt_of_le (firm a ha isFirm).2 (firm' a' ha' isFirm').1
    · rcases mem_append.1 mem with mem | mem
      · exact (firm a mem isFirm).imp_right (Nat.lt_of_lt_of_le · g.bound)
      · exact (firm' a mem isFirm).imp_left (Nat.le_trans h.bound)

instance : IsPreorder Builder Later where
  refl := .refl
  trans _ _ _ := .trans

theorem Later.version (h : b.Later b') : b'.output.version = b.output.version := h.demands.version

theorem Later.form (h : b.Later b') {form : TypeForm} (found : b.form? id = some form)
    (declared : form.isAnnounced = false) : b'.form? id = some form := by
  rcases h.forms id form found with same | ⟨storage, pointee, rfl, -⟩
  · exact same
  · cases declared

theorem Later.hasConstant (h : b.Later b') {op : Opcode} {operands : List Operand}
    (declared : b.HasConstant op type id operands) : b'.HasConstant op type id operands :=
  h.globals.subset declared

theorem Later.hasBits (h : b.Later b')
    (declared : b.HasBits type id bits) : b'.HasBits type id bits :=
  declared.imp h.hasConstant h.hasConstant

theorem Later.literalOperand (h : b.Later b') (below : type < b.output.bound) (bits : Nat) :
    b'.literalOperand type bits = b.literalOperand type bits := by
  have wide : b'.isWide type = b.isWide type := by
    unfold isWide
    cases found : b.form? type with
    | none => rw [h.fresh type below found]
    | some form =>
      rcases h.forms type form found with same | ⟨storage, pointee, rfl, done⟩
      · rw [same]
      · rw [done]
  rw [Builder.literalOperand, wide, Builder.literalOperand]

/-! ## Steps that leave the memories alone -/

/-- What is remembered about types other than their forms, and about constants. -/
def tables (b : Builder) :=
  (b.pointerTypes, b.arrayTypes, b.runtimeArrayTypes, b.handleTypes, b.scalars, b.composites,
    b.nulls, b.literals)

/-- What the memories are about is left as it is, but for ids that have been handed out. The new
decorations are of a certain kind. -/
structure Adorned (kind : Annotation → Prop) (b b' : Builder) : Prop where
  bound : b.output.bound ≤ b'.output.bound
  deadBlocks : b.deadBlocks <+: b'.deadBlocks
  demands : b.demands.Grows b'.demands
  globals : b'.output.globals = b.output.globals
  types : b'.types = b.types
  tables : b'.tables = b.tables
  notes : ∃ extra, b'.output.annotations = b.output.annotations ++ extra ∧ ∀ a ∈ extra, kind a

/-- Neither members nor strides are decorated. -/
abbrev Calm : Builder → Builder → Prop := Adorned fun a => a.isFirm = false

theorem Adorned.later {b1 : Builder} (h : b1.Adorned kind b')
    (before : b.Later b1) (notes : b.Noted b') : b.Later b' := by
  have same := h.tables
  simp only [Builder.tables, Prod.mk.injEq] at same
  obtain ⟨-, arrays, runtimeArrays, handles, scalars, composites, -, literals⟩ := same
  have forms : ∀ id, b'.form? id = b1.form? id := fun id => by rw [form?, h.types, form?]
  exact {
    demands := trans_of Demands.Grows before.demands h.demands
    bound := Nat.le_trans before.bound h.bound
    deadBlocks := before.deadBlocks.trans h.deadBlocks
    globals := h.globals ▸ before.globals
    forms := fun id form found => forms id ▸ before.forms id form found
    fresh := fun id below none => (forms id).trans (before.fresh id below none)
    arrayTypes := arrays ▸ before.arrayTypes
    runtimeArrayTypes := runtimeArrays ▸ before.runtimeArrayTypes
    handleTypes := handles ▸ before.handleTypes
    scalars := scalars ▸ before.scalars
    composites := composites ▸ before.composites
    literals := literals ▸ before.literals
    notes }

theorem Calm.later (h : b.Calm b') : b.Later b' := by
  obtain ⟨extra, notes, loose⟩ := h.notes
  refine Adorned.later h (.refl b) ⟨extra, notes, fun a mem _ _ topic found => ?_,
    fun a mem isFirm => ?_⟩
  · exact absurd (firm_of_topic found).1 (by simp [loose a mem])
  · exact absurd isFirm (by simp [loose a mem])

theorem strideNotes_of_notes {extra : List Annotation}
    (notes : b'.output.annotations = b.output.annotations ++ extra)
    (other : ∀ a ∈ extra, a.isFirm → a.target ≠ id) : b'.strideNotes id = b.strideNotes id := by
  have none : extra.filter (fun a => a.target == id && a.decoration == .arrayStride) = [] := by
    refine filter_eq_nil_iff.2 fun a mem yes => ?_
    simp only [Bool.and_eq_true, beq_iff_eq] at yes
    exact other a mem (isFirm_of_stride yes.2) yes.1
  rw [strideNotes, notes, filter_append, none, append_nil, strideNotes]

/-- A form stays true while an announced pointer is not declared. -/
theorem TrueForm.later {form : TypeForm} (h : b.TrueForm id form) (later : b.Later b')
    (open_ : form.isAnnounced → ∀ i ∈ b'.output.globals, i.result ≠ some id) :
    b'.TrueForm id form where
  below := Nat.lt_of_lt_of_le h.below later.bound
  announced := open_
  announcement storage same := later.globals.subset (h.announcement storage same)
  declared declared := by
    obtain ⟨op, operands, mem, made⟩ := h.declared declared
    exact ⟨op, operands, later.globals.subset mem, made⟩
  strides := by
    obtain ⟨extra, notes, -, firm⟩ := later.notes
    rw [← h.strides]
    refine strideNotes_of_notes notes fun a mem isFirm same => ?_
    exact Nat.not_lt.2 (firm a mem isFirm).1 (same ▸ h.below)

/-- What the later builder has put into its tables is true. -/
structure Fills (b b' : Builder) : Prop where
  arrays : ∀ element length stride id, b'.arrayTypes.lookup (element, length, stride) = some id →
    b.arrayTypes.lookup (element, length, stride) = some id ∨ b'.TrueArray element length stride id
  runtimeArrays : ∀ element stride id, b'.runtimeArrayTypes.lookup (element, stride) = some id →
    b.runtimeArrayTypes.lookup (element, stride) = some id ∨ b'.TrueRuntimeArray element stride id
  scalars : ∀ type bits id, b'.scalars.lookup (type, bits) = some id →
    b.scalars.lookup (type, bits) = some id ∨ b'.TrueScalar type bits id
  pointers : ∀ storage pointee id, b'.pointerTypes.lookup (storage, pointee) = some id →
    b.pointerTypes.lookup (storage, pointee) = some id ∨
      b'.form? id = some (.pointer storage (some pointee))
  composites : ∀ type parts id, b'.composites.lookup (type, parts) = some id →
    b.composites.lookup (type, parts) = some id ∨
      b'.HasConstant .constantComposite type id (Operand.refs parts)
  nulls : ∀ type id, b'.nulls.lookup type = some id →
    b.nulls.lookup type = some id ∨ b'.HasConstant .constantNull type id []
  literals : ∀ id bits, b'.literals.lookup id = some bits →
    b.literals.lookup id = some bits ∨ ∃ type, b'.HasBits type id bits

theorem Fills.nothing (same : b'.tables = b.tables) : b.Fills b' := by
  simp only [tables, Prod.mk.injEq] at same
  obtain ⟨pointers, arrays, runtimeArrays, -, scalars, composites, nulls, literals⟩ := same
  constructor
  · exact fun _ _ _ _ found => .inl (arrays ▸ found)
  · exact fun _ _ _ found => .inl (runtimeArrays ▸ found)
  · exact fun _ _ _ found => .inl (scalars ▸ found)
  · exact fun _ _ _ found => .inl (pointers ▸ found)
  · exact fun _ _ _ found => .inl (composites ▸ found)
  · exact fun _ _ found => .inl (nulls ▸ found)
  · exact fun _ _ found => .inl (literals ▸ found)

namespace Tidy

/-- A later builder is tidy if what is new about it is true. -/
theorem later (h : b.Tidy) (later : b.Later b')
    (distinct : Distinct b'.output.bound b'.output.globals)
    (forms : ∀ id form, b'.form? id = some form → b.form? id = some form ∧
      (form.isAnnounced → ∀ i ∈ b'.output.globals, i.result ≠ some id) ∨ b'.TrueForm id form)
    (known : ∀ i ∈ b'.output.globals, i.form?.isSome → ∀ id, i.result = some id →
      (b'.form? id).isSome)
    (constants : ∀ i ∈ b'.output.globals, i ∉ b.output.globals → i.op = .constant →
      ∀ id, i.result = some id → (b'.literal? id).isSome) (fills : b.Fills b') : b'.Tidy where
  distinct := distinct
  forms id form found := by
    rcases forms id form found with ⟨old, open_⟩ | new
    · exact (h.forms id form old).later later open_
    · exact new
  known := known
  firm a mem isFirm := by
    obtain ⟨extra, notes, -, firm⟩ := later.notes
    rcases mem_append.1 (notes ▸ mem) with mem | mem
    · exact Nat.lt_of_lt_of_le (h.firm a mem isFirm) later.bound
    · exact (firm a mem isFirm).2
  arrays element length stride id found := by
    rcases fills.arrays element length stride id found with old | new
    · obtain ⟨stride', form, agree⟩ := h.arrays element length stride id old
      exact ⟨stride', later.form form rfl, agree⟩
    · exact new
  runtimeArrays element stride id found := by
    rcases fills.runtimeArrays element stride id found with old | new
    · obtain ⟨stride', form, agree⟩ := h.runtimeArrays element stride id old
      exact ⟨stride', later.form form rfl, agree⟩
    · exact new
  scalars type bits id found := by
    rcases fills.scalars type bits id found with old | new
    · refine (h.scalars type bits id old).imp (fun number => ?_) (And.imp ?_ ?_)
      · refine ⟨later.hasBits number.hasBits, later.literals id bits number.literal,
          fun older => ?_⟩
        have below := h.distinct.below _ (number.words older) id rfl
        rw [later.literalOperand (Nat.lt_trans older below)]
        exact later.hasConstant (number.words older)
      · exact fun bool => later.form bool rfl
      · exact Or.imp (And.imp_right later.hasConstant) (And.imp_right later.hasConstant)
    · exact new
  pointers storage pointee id found := by
    rcases fills.pointers storage pointee id found with old | new
    · exact later.form (h.pointers storage pointee id old) rfl
    · exact new
  composites type parts id found := by
    rcases fills.composites type parts id found with old | new
    · exact later.hasConstant (h.composites type parts id old)
    · exact new
  nulls type id found := by
    rcases fills.nulls type id found with old | new
    · exact later.hasConstant (h.nulls type id old)
    · exact new
  literals id bits found := by
    rcases fills.literals id bits found with old | new
    · exact (h.literals id bits old).imp fun _ => later.hasBits
    · exact new
  constants i mem constant id result := by
    by_cases old : i ∈ b.output.globals
    · obtain ⟨bits, found⟩ := Option.isSome_iff_exists.1 (h.constants i old constant id result)
      exact Option.isSome_of_eq_some (later.literals id bits found)
    · exact constants i mem old constant id result

theorem laterTables (h : b.Tidy) (later : b.Later b')
    (globals : b'.output.globals = b.output.globals)
    (types : b'.types = b.types) (fills : b.Fills b') : b'.Tidy := by
  have form : ∀ id, b'.form? id = b.form? id := fun id => by rw [form?, types, form?]
  refine h.later later ?_ (fun id f found => .inl ?_) ?_
    (fun i mem new => absurd (globals ▸ mem) new) fills
  · rw [globals]
    refine ⟨fun i mem id result => ?_, h.distinct.once, h.distinct.nameless⟩
    exact Nat.lt_of_lt_of_le (h.distinct.below i mem id result) later.bound
  · rw [form] at found
    rw [globals]
    exact ⟨found, (h.forms id f found).announced⟩
  · rw [globals]
    intro i mem made id result
    rw [form]
    exact h.known i mem made id result

theorem number (h : b.Tidy) {width : Nat} {signed : Bool}
    (form : b.form? type = some (.int width signed))
    (found : b.scalars.lookup (type, bits) = some id) : b.TrueNumber type bits id := by
  rcases h.scalars type bits id found with number | ⟨bool, -⟩
  · exact number
  · cases form.symm.trans bool

theorem form?_bound (h : b.Tidy) : b.form? b.output.bound = none := by
  cases found : b.form? b.output.bound with
  | none => rfl
  | some form => exact absurd (h.forms _ form found).below (Nat.lt_irrefl _)

/-- The next id has no strides yet. -/
theorem strideNotes_bound (h : b.Tidy) : b.strideNotes b.output.bound = [] := by
  refine filter_eq_nil_iff.2 fun a mem yes => ?_
  simp only [Bool.and_eq_true, beq_iff_eq] at yes
  have below := h.firm a mem (isFirm_of_stride yes.2)
  rw [yes.1] at below
  exact Nat.lt_irrefl _ below

end Tidy

theorem Adorned.tidy (h : b.Adorned kind b') (tidy : b.Tidy)
    (other : ∀ a, kind a → a.decoration ≠ .arrayStride)
    (firm : ∀ a, kind a → a.isFirm → a.target < b'.output.bound) : b'.Tidy := by
  obtain ⟨extra, notes, kinds⟩ := h.notes
  -- Without the new decorations the builder is a later one.
  have adorned : b.Adorned kind { b' with output.annotations := b.output.annotations } :=
    { h with notes := ⟨[], by simp, by simp⟩ }
  have bare := tidy.laterTables (adorned.later (.refl b) (noted_of_same rfl)) h.globals h.types
    (.nothing h.tables)
  refine { bare with
    forms := fun id f found => ?_, firm := fun a mem isFirm => ?_
    scalars := fun type bits id found => (bare.scalars type bits id found).imp_left fun h =>
      { h with } }
  · refine { bare.forms id f found with strides := ?_ }
    have none : extra.filter (fun a => a.target == id && a.decoration == .arrayStride) = [] := by
      refine filter_eq_nil_iff.2 fun a mem yes => ?_
      simp only [Bool.and_eq_true, beq_iff_eq] at yes
      exact other a (kinds a mem) yes.2
    rw [strideNotes, notes, filter_append, none, append_nil]
    exact (bare.forms id f found).strides
  · rcases mem_append.1 (notes ▸ mem) with mem | mem
    · exact bare.firm a mem isFirm
    · exact firm a (kinds a mem) isFirm

theorem Calm.tidy (h : b.Calm b') (tidy : b.Tidy) : b'.Tidy := by
  refine Adorned.tidy h tidy (fun a loose same => ?_) fun a loose firm => ?_
  · simp [isFirm_of_stride same] at loose
  · exact absurd firm (by simp [loose])

/-! ## New declarations -/

/-- One more declaration, of an id that is not declared yet. -/
theorem Distinct.push {bound' : Ident} (h : Distinct bound globals) (le : bound ≤ bound')
    (new : ∀ id, i.result = some id → id < bound' ∧ ∀ j ∈ globals, j.result ≠ some id)
    (nameless : i.result = none → i.op = .typeForwardPointer) : Distinct bound'
    (globals ++ [i]) := by
  constructor
  · intro j mem id result
    rcases mem_append.1 mem with mem | mem
    · exact Nat.lt_of_lt_of_le (h.below j mem id result) le
    · cases mem_singleton.1 mem
      exact (new id result).1
  · intro j hj k hk id first second
    rcases mem_append.1 hj with hj | hj <;> rcases mem_append.1 hk with hk | hk
    · exact h.once j hj k hk id first second
    · cases mem_singleton.1 hk
      exact absurd first ((new id second).2 j hj)
    · cases mem_singleton.1 hj
      exact absurd second ((new id first).2 k hk)
    · rw [mem_singleton.1 hj, mem_singleton.1 hk]
  · intro j mem result
    rcases mem_append.1 mem with mem | mem
    · exact h.nameless j mem result
    · cases mem_singleton.1 mem
      exact nameless result

theorem Distinct.next (h : Distinct bound globals)
    (result : i.result = some bound) : Distinct (bound + 1) (globals ++ [i]) := by
  refine h.push (Nat.le_succ _) (fun id same => ?_) (fun none => by simp [result] at none)
  rw [result, Option.some.injEq] at same
  subst same
  exact ⟨Nat.lt_succ_self _, fun j mem again => Nat.lt_irrefl _ (h.below j mem _ again)⟩

/-- A type is declared under the next id, with its stride if it has one. -/
def addType (b : Builder) (op : Opcode) (operands : List Operand) (form : TypeForm) : Builder :=
  { b with
    output :=
      { b.output with
        bound := b.output.bound + 1
        globals := b.output.globals ++ [{ op, result := some b.output.bound, operands }]
        annotations := b.output.annotations ++
          form.stride?.toList.map (strideNote b.output.bound) }
    types := (b.output.bound, form) :: b.types }

/-- A constant or a variable is declared under the next id. -/
def addValue (b : Builder) (op : Opcode) (type : Ident) (operands : List Operand) : Builder :=
  { b with
    output :=
      { b.output with
        bound := b.output.bound + 1
        globals := b.output.globals ++
          [{ op, type := some type, result := some b.output.bound, operands }] } }

/-- A pointer type is announced under the next id. -/
def addPointer (b : Builder) (storage : StorageClass) : Builder :=
  { b with
    output :=
      { b.output with
        bound := b.output.bound + 1
        globals := b.output.globals ++
          [{ op := .typeForwardPointer, operands := [.ref b.output.bound, .storage storage] }] }
    types := (b.output.bound, .pointer storage none) :: b.types }

/-- A pointer type that was announced is declared. -/
def addPointee (b : Builder) (storage : StorageClass) (id pointee : Ident) : Builder :=
  { b with
    output.globals := b.output.globals ++
      [{ op := .typePointer, result := some id, operands := [.storage storage, .ref pointee] }]
    types := (id, .pointer storage (some pointee)) :: b.types }

namespace Tidy

variable {op : Opcode} {operands : List Operand} {form : TypeForm} {f : TypeForm}

theorem form?_cons_bound (h : b.Tidy) (found : b.form? id = some f) :
    lookup id ((b.output.bound, form) :: b.types) = some f := by
  have other : id ≠ b.output.bound := Nat.ne_of_lt (h.forms id f found).below
  exact (lookup_cons_of_ne other _ _).trans found

theorem later_addType (h : b.Tidy) : b.Later (b.addType op operands form) :=
  { Later.refl b with
    bound := Nat.le_succ _
    globals := prefix_append _ _
    forms := fun _ _ found => .inl (h.form?_cons_bound found)
    fresh := fun _ below => (lookup_cons_of_ne (Nat.ne_of_lt below) _ _).trans
    notes := by
      refine ⟨_, rfl, ?_, fun a mem _ => ?_⟩
      · cases form.stride? <;> simp [Agree]
      · obtain ⟨stride, -, rfl⟩ := mem_map.1 mem
        exact ⟨Nat.le_refl _, Nat.lt_succ_self _⟩ }

/-- One more declaration keeps a builder tidy if what it declares is remembered. -/
theorem push (h : b.Tidy) (later : b.Later b')
    (globals : b'.output.globals = b.output.globals ++ [i])
    (distinct : Distinct b'.output.bound (b.output.globals ++ [i]))
    (forms : ∀ id form, b'.form? id = some form →
      b.form? id = some form ∧ i.result ≠ some id ∨ b'.TrueForm id form)
    (known : i.form?.isSome → ∀ id, i.result = some id → (b'.form? id).isSome)
    (constant : i.op = .constant → ∀ id, i.result = some id → (b'.literal? id).isSome)
    (fills : b.Fills b') : b'.Tidy := by
  refine h.later later (globals ▸ distinct) (fun id form found => ?_) ?_ ?_ fills
  · refine (forms id form found).imp_left fun ⟨old, other⟩ => ⟨old, fun announced j mem => ?_⟩
    rcases mem_append.1 (globals ▸ mem) with mem | mem
    · exact (h.forms id form old).announced announced j mem
    · rwa [mem_singleton.1 mem]
  · intro j mem plain id result
    rcases mem_append.1 (globals ▸ mem) with mem | mem
    · obtain ⟨form, found⟩ := Option.isSome_iff_exists.1 (h.known j mem plain id result)
      rcases later.forms id form found with same | ⟨_, _, -, done⟩
      · exact Option.isSome_of_eq_some same
      · exact Option.isSome_of_eq_some done
    · cases mem_singleton.1 mem
      exact known plain id result
  · intro j mem new
    cases mem_singleton.1 ((mem_append.1 (globals ▸ mem)).resolve_left new)
    exact constant

theorem addType (h : b.Tidy) (made : form.Spells op operands)
    (declared : form.isAnnounced = false) : (b.addType op operands form).Tidy := by
  refine h.push h.later_addType rfl (h.distinct.next rfl) (fun id f found => ?_)
    (fun _ id result => ?_)
    (fun constant => ?_) (.nothing rfl)
  · rcases lookup_cons_cases found with ⟨rfl, rfl⟩ | old
    · refine .inr ⟨Nat.lt_succ_self _, by simp [declared], ?_, fun _ => ?_, ?_⟩
      · rintro storage rfl
        cases declared
      · exact ⟨op, operands, mem_append_right _ mem_cons_self, made⟩
      · have before := h.strideNotes_bound
        unfold strideNotes at before ⊢
        rw [Builder.addType, filter_append, before, nil_append]
        refine filter_eq_self.2 fun a mem => ?_
        obtain ⟨stride, -, rfl⟩ := mem_map.1 mem
        simp [strideNote]
    · refine .inl ⟨old, fun same => ?_⟩
      cases same
      exact Nat.lt_irrefl _ (h.forms _ f old).below
  · cases result
    simp [Builder.addType, form?]
  · have constant : op = .constant := constant
    simpa [constant, declaredForm] using made.declared

theorem later_addValue (b : Builder) (op : Opcode) (type : Ident) (operands : List Operand) :
    b.Later (b.addValue op type operands) :=
  { Later.refl b with
    bound := Nat.le_succ _
    notes := noted_of_same rfl
    globals := prefix_append _ _ }

/-- A constant or a variable is declared, and possibly remembered. -/
theorem addValue (h : b.Tidy) (op : Opcode) (type : Ident) (operands : List Operand)
    (value : declaredForm op operands = none) (later : (b.addValue op type operands).Later b')
    (globals : b'.output.globals = (b.addValue op type operands).output.globals)
    (bound : b'.output.bound = b.output.bound + 1) (types : b'.types = b.types)
    (constant : op = .constant → (b'.literal? b.output.bound).isSome)
    (fills : b.Fills b') : b'.Tidy ∧ b.Later b' := by
  have later := (later_addValue b op type operands).trans later
  refine ⟨h.push later globals (bound ▸ h.distinct.next rfl) (fun id f found => .inl ?_)
    (fun plain => ?_) (fun isConstant id result => ?_) fills, later⟩
  · rw [form?, types, ← form?] at found
    refine ⟨found, fun same => ?_⟩
    cases same
    exact Nat.lt_irrefl _ (h.forms _ f found).below
  · simp [Instruction.form?, value] at plain
  · cases result
    exact constant isConstant

theorem later_addPointer (h : b.Tidy) (storage : StorageClass) : b.Later (b.addPointer storage) :=
  { Later.refl b with
    bound := Nat.le_succ _
    notes := noted_of_same rfl
    globals := prefix_append _ _
    forms := fun _ _ found => .inl (h.form?_cons_bound found)
    fresh := fun _ below => (lookup_cons_of_ne (Nat.ne_of_lt below) _ _).trans }

theorem addPointer (h : b.Tidy) (storage : StorageClass) : (b.addPointer storage).Tidy := by
  refine h.push (h.later_addPointer storage) rfl ?_ (fun id f found => ?_) (fun _ id result => ?_)
    (fun _ id result => ?_) (.nothing rfl)
  · exact h.distinct.push (Nat.le_succ _) (fun id result => by cases result) fun _ => rfl
  · rcases lookup_cons_cases found with ⟨rfl, rfl⟩ | old
    · refine .inr
        ⟨Nat.lt_succ_self _, fun _ i mem result => ?_, ?_, by simp [TypeForm.isAnnounced], ?_⟩
      · rcases mem_append.1 mem with mem | mem
        · exact Nat.lt_irrefl _ (h.distinct.below i mem _ result)
        · cases mem_singleton.1 mem
          cases result
      · rintro _ ⟨⟩
        exact mem_append_right _ mem_cons_self
      · exact h.strideNotes_bound
    · exact .inl ⟨old, fun same => by cases same⟩
  · cases result
  · cases result

variable {storage : StorageClass} {id : Ident}

theorem later_addPointee (announced : b.form? id = some (.pointer storage none)) (pointee : Ident) :
    b.Later (b.addPointee storage id pointee) :=
  { Later.refl b with
    globals := prefix_append _ _
    forms := fun id' f found => by
      by_cases same : id' = id
      · subst same
        rw [announced, Option.some.injEq] at found
        exact .inr ⟨storage, pointee, found.symm, by simp [Builder.addPointee, form?]⟩
      · exact .inl ((lookup_cons_of_ne same _ _).trans found)
    fresh := fun id' _ none => by
      have other : id' ≠ id := fun same => by simp [same, announced] at none
      exact (lookup_cons_of_ne other _ _).trans none }

theorem addPointee (h : b.Tidy) (announced : b.form? id = some (.pointer storage none))
    (pointee : Ident) : (b.addPointee storage id pointee).Tidy := by
  have before := h.forms id _ announced
  refine h.push (later_addPointee announced pointee) rfl ?_ (fun id' f found => ?_)
    (fun _ id' result => ?_)
    (fun constant => by cases constant) (.nothing rfl)
  · refine h.distinct.push (Nat.le_refl _) (fun id' result => ?_) fun result => by cases result
    cases result
    exact ⟨before.below, before.announced rfl⟩
  · by_cases same : id' = id
    · subst same
      obtain rfl : f = .pointer storage (some pointee) := by
        simpa [Builder.addPointee, form?, eq_comm] using found
      refine .inr ⟨before.below, by simp [TypeForm.isAnnounced], by simp, fun _ => ?_,
        before.strides⟩
      exact ⟨_, _, mem_append_right _ mem_cons_self, rfl⟩
    · refine .inl ⟨(lookup_cons_of_ne same _ _).symm.trans found, fun again => ?_⟩
      exact same (Option.some.inj again).symm
  · cases result
    simp [Builder.addPointee, form?]

end Tidy

end Builder

end ShaderGen
