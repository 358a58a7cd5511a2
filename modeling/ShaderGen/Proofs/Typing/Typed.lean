import ShaderGen.Proofs.Layout.Nesting
import ShaderGen.Proofs.Typing.Building

/-!
# The types of a module for the types of a program

`Typed p s t packing rowMajor id` says that `id` is the type of the module for the type `t` of the
program, where it is laid out by the packing and the majorness. For numbers, truth values, vectors
and matrices it is the first declaration of its kind, for references the one that is remembered; an
array has the stride that the layout gives it, and a structure has the members that exist, in order,
with the decorations of their places. What is so remains so while the module grows (`Typed.kept`).
-/

namespace ShaderGen

variable {struct : StructId} {size : ArraySize}

/-! ## Places of members -/

/-- The decorations that say where the members of a structure are. -/
def Decoration.isPlacing : Decoration → Bool
  | .offset | .rowMajor | .colMajor | .matrixStride => true
  | _ => false

/-- Says where a member of a structure type is. -/
def Annotation.places (struct : Ident) (k : Nat) (a : Annotation) : Bool :=
  a.target == struct && a.member == some k && a.decoration.isPlacing

/-- The decorations that say where a member of a structure type is. -/
def Builder.placingNotes (b : Builder) (struct : Ident) (k : Nat) : List Annotation :=
  b.output.annotations.filter (·.places struct k)

namespace Program

/-- The byte offset of a member: the one asked for by transform feedback, or the one by the packing,
if there is one. -/
def memberOffset? (p : Program) (s : StructDecl) (packing : Packing) (rowMajor : Bool)
    (m : StructMember) (source : Nat) : Option Nat :=
  match m.type.qualifier.layout.xfbOffset with
  | some offset => some offset
  | none =>
    if packing.isExplicit then (p.structLayout packing s rowMajor).offsets[source]? else none

/-- The decorations that say where a member goes that is number `k` in the module and number
`source` in the program. -/
def placingNotes (p : Program) (s : StructDecl) (packing : Packing) (rowMajor : Bool)
    (struct : Ident) (m : StructMember) (source k : Nat) : List Annotation :=
  let row := m.type.isRowMajor rowMajor
  ((p.memberOffset? s packing rowMajor m source).toList.map fun offset =>
    { target := struct, member := some k, decoration := .offset
      argument := some (.literal offset) }) ++
  if packing.isExplicit && 0 < m.type.matrixCols then
    [{ target := struct, member := some k, decoration := majorness row },
     { target := struct, member := some k, decoration := .matrixStride
       argument := some (.literal (m.type.matrixStride packing row)) }]
  else []

end Program

/-! ## Types -/

/-- The declaration of the scalars of a type. In memory that is laid out, truth values are words. -/
def BasicType.declaration? (explicit : Bool) : BasicType → Option (Opcode × List Operand × TypeForm)
  | .bool =>
    if explicit then some (.typeInt, [.literal 32, .literal 0], .int 32 false)
    else some (.typeBool, [], .bool)
  | .int width => some (.typeInt, [.literal width, .literal 1], .int width true)
  | .uint width => some (.typeInt, [.literal width, .literal 0], .int width false)
  | .float width => some (.typeFloat, [.literal width], .float width)
  | _ => none

/-- A scalar, vector or matrix over a scalar type. -/
def Builder.Shaped (b : Builder) (t : ShaderType) (scalar id : Ident) : Prop :=
  if 0 < t.matrixCols then
    ∃ column, b.VectorOf scalar t.matrixRows column ∧
      b.HasType .typeMatrix [.ref column, .literal t.matrixCols] (.matrix column t.matrixCols) id
  else b.VectorOf scalar t.vectorSize id

/-- The length of an array dimension. -/
def Builder.HasLength (b : Builder) (size : ArraySize) (length : Ident) : Prop :=
  ∀ n, size = .sized n → b.HasInteger 32 false n length

/-- The id is the type of the module for a type of the program. -/
inductive Typed (p : Program) (s : State) : ShaderType → Packing → Bool → Ident → Prop
  | void {t : ShaderType} {packing : Packing} {rowMajor : Bool} {id : Ident}
      (arrays : t.arrays = []) (basic : t.basic = .void)
      (type : s.builder.HasType .typeVoid [] .void id) : Typed p s t packing rowMajor id
  | number {t : ShaderType} {packing : Packing} {rowMajor : Bool} {id scalar : Ident} {op : Opcode}
      {operands : List Operand} {form : TypeForm} (arrays : t.arrays = [])
      (basic : t.basic.declaration? packing.isExplicit = some (op, operands, form))
      (type : s.builder.HasType op operands form scalar) (shaped : s.builder.Shaped t scalar id) :
      Typed p s t packing rowMajor id
  | handle {t : ShaderType} {packing : Packing} {rowMajor : Bool} {id : Ident}
      (arrays : t.arrays = []) (basic : t.isOpaque) : Typed p s t packing rowMajor id
  | reference {t : ShaderType} {packing : Packing} {rowMajor : Bool} {struct : StructId}
      {r : ReferencePointer} (arrays : t.arrays = []) (basic : t.basic = .reference struct)
      (found : s.references.lookup struct = some r) : Typed p s t packing rowMajor r.type
  | struct {t : ShaderType} {packing : Packing} {rowMajor : Bool} {id : Ident} {struct : StructId}
      {decl : StructDecl} {members : List Ident} (arrays : t.arrays = [])
      (isStruct : t.structId? = some struct) (declared : p.struct? struct = some decl)
      (fits : packing.isExplicit → p.layoutFits packing decl rowMajor)
      (form : s.builder.form? id = some (.struct members))
      (count : members.length = (p.presentMembers decl).length)
      (typed : ∀ (k : Nat) (m : StructMember) (source : Nat) (type : Ident),
        (p.presentMembers decl)[k]? = some (m, source) →
        members[k]? = some type → Typed p s m.type packing (m.type.isRowMajor rowMajor) type)
      (notes : ∀ (k : Nat) (m : StructMember) (source : Nat),
        (p.presentMembers decl)[k]? = some (m, source) →
        s.builder.placingNotes id k = p.placingNotes decl packing rowMajor id m source k) :
      Typed p s t packing rowMajor id
  | array {t : ShaderType} {packing : Packing} {rowMajor : Bool} {id element length : Ident}
      {size : ArraySize} {inner : List ArraySize} (arrays : t.arrays = size :: inner)
      (typed : Typed p s { t with arrays := inner } packing rowMajor element)
      (fits : (Codegen.arrayStride? p { type := t, packing, rowMajor } t).all (· < UInt32.size))
      (sized : s.builder.HasLength size length)
      (array : s.builder.TrueArray element length
        (Codegen.arrayStride? p { type := t, packing, rowMajor } t) id) :
      Typed p s t packing rowMajor id
  | runtimeArray {t : ShaderType} {packing : Packing} {rowMajor : Bool} {id element : Ident}
      {inner : List ArraySize} (arrays : t.arrays = .unsized :: inner)
      (typed : Typed p s { t with arrays := inner } packing rowMajor element)
      (fits : (Codegen.arrayStride? p { type := t, packing, rowMajor } t).all (· < UInt32.size))
      (array : s.builder.TrueRuntimeArray element
        (Codegen.arrayStride? p { type := t, packing, rowMajor } t) id) :
      Typed p s t packing rowMajor id

/-! ## What is so remains so -/

namespace Builder

variable {b b' : Builder} {id : Ident} {element length : Ident} {stride : Option Nat}

theorem VectorOf.later {component : Ident} {count : Nat} (h : b.VectorOf component count id)
    (later : b.Later b') : b'.VectorOf component count id := by
  unfold VectorOf at h ⊢
  by_cases single : count ≤ 1
  · rwa [if_pos single] at h ⊢
  · rw [if_neg single] at h ⊢
    exact h.later later

theorem Shaped.later {t : ShaderType} {scalar : Ident} (h : b.Shaped t scalar id)
    (later : b.Later b') : b'.Shaped t scalar id := by
  unfold Shaped at h ⊢
  by_cases isMatrix : 0 < t.matrixCols
  · rw [if_pos isMatrix] at h ⊢
    obtain ⟨column, vector, matrix⟩ := h
    exact ⟨column, vector.later later, matrix.later later⟩
  · rw [if_neg isMatrix] at h ⊢
    exact h.later later

theorem HasLength.later (h : b.HasLength size length)
    (later : b.Later b') : b'.HasLength size length := fun n sized => (h n sized).later later

theorem TrueArray.later (h : b.TrueArray element length stride id) (later : b.Later b') :
    b'.TrueArray element length stride id := by
  obtain ⟨stride', form, agree⟩ := h
  exact ⟨stride', later.form form rfl, agree⟩

theorem TrueRuntimeArray.later (h : b.TrueRuntimeArray element stride id) (later : b.Later b') :
    b'.TrueRuntimeArray element stride id := by
  obtain ⟨stride', form, agree⟩ := h
  exact ⟨stride', later.form form rfl, agree⟩

theorem placingNotes_later (tidy : b.Tidy) (later : b.Later b') {form : TypeForm}
    (known : b.form? id = some form) (k : Nat) : b'.placingNotes id k = b.placingNotes id k := by
  obtain ⟨extra, notes, -, firm⟩ := later.notes
  have none : extra.filter (·.places id k) = [] := by
    refine List.filter_eq_nil_iff.2 fun a mem yes => ?_
    simp only [Bool.and_eq_true, Annotation.places, beq_iff_eq] at yes
    have above := (firm a mem (by simp [yes.1.2, Annotation.isFirm])).1
    rw [yes.1.1] at above
    exact Nat.not_lt.2 above (tidy.forms id form known).below
  rw [placingNotes, notes, List.filter_append, none, List.append_nil, placingNotes]

end Builder

/-- What a state has in common with a later one, as far as types go. -/
structure State.Keeps (s t : State) : Prop where
  later : s.builder.Later t.builder
  references : ∀ id r, s.references.lookup id = some r →
    ∃ r', t.references.lookup id = some r' ∧ r'.type = r.type
  typedStructs : s.typedStructs ⊆ t.typedStructs

namespace Typed

variable {p : Program} {s : State} {t : ShaderType} {packing : Packing} {rowMajor : Bool}
  {id : Ident}

variable (h : Typed p s t packing rowMajor id)

include h

theorem kept {s' : State} (tidy : s.builder.Tidy)
    (kept : s.Keeps s') : Typed p s' t packing rowMajor id := by
  induction h with
  | void arrays basic type => exact .void arrays basic (type.later kept.later)
  | number arrays basic type shaped =>
    exact .number arrays basic (type.later kept.later) (shaped.later kept.later)
  | handle arrays basic => exact .handle arrays basic
  | reference arrays basic found =>
    obtain ⟨r', found', same⟩ := kept.references _ _ found
    exact same ▸ .reference arrays basic found'
  | struct arrays isStruct declared fits form count _ notes ih =>
    refine .struct arrays isStruct declared fits (kept.later.form form rfl) count ih ?_
    intro k m source present
    rw [Builder.placingNotes_later tidy kept.later form, notes k m source present]
  | array arrays _ fits sized array ih =>
    exact .array arrays ih fits (sized.later kept.later) (array.later kept.later)
  | runtimeArray arrays _ fits array ih =>
    exact .runtimeArray arrays ih fits (array.later kept.later)

theorem number_of_declaration
    (basic : (t.basic.declaration? false).isSome) (arrays : t.arrays = []) :
    ∃ op operands form scalar, t.basic.declaration? packing.isExplicit = some (op, operands, form) ∧
      s.builder.HasType op operands form scalar ∧ s.builder.Shaped t scalar id := by
  cases h with
  | number _ declared type shaped => exact ⟨_, _, _, _, declared, type, shaped⟩
  | array other | runtimeArray other => simp [arrays] at other
  | void _ other | reference _ other => simp [other, BasicType.declaration?] at basic
  | handle _ other =>
    unfold ShaderType.isOpaque at other
    split at other <;> simp_all [BasicType.declaration?]
  | struct _ other =>
    unfold ShaderType.structId? at other
    split at other <;> simp_all [BasicType.declaration?]

theorem members_of_struct (arrays : t.arrays = []) (isStruct : t.structId? = some struct) :
    ∃ decl members, p.struct? struct = some decl ∧
      (packing.isExplicit → p.layoutFits packing decl rowMajor) ∧
      s.builder.form? id = some (.struct members) ∧
      members.length = (p.presentMembers decl).length ∧
      (∀ (k : Nat) (m : StructMember) (source : Nat) (type : Ident),
        (p.presentMembers decl)[k]? = some (m, source) → members[k]? = some type →
        Typed p s m.type packing (m.type.isRowMajor rowMajor) type) ∧
      ∀ (k : Nat) (m : StructMember) (source : Nat), (p.presentMembers decl)[k]? = some
      (m, source) →
        s.builder.placingNotes id k = p.placingNotes decl packing rowMajor id m source k := by
  cases h with
  | struct _ same declared fits form count typed notes =>
    cases isStruct.symm.trans same
    exact ⟨_, _, declared, fits, form, count, typed, notes⟩
  | array other | runtimeArray other => simp [arrays] at other
  | void _ basic | reference _ basic => simp [ShaderType.structId?, basic] at isStruct
  | number _ basic =>
    unfold ShaderType.structId? at isStruct
    split at isStruct <;> simp_all [BasicType.declaration?]
  | handle _ basic =>
    unfold ShaderType.isOpaque at basic
    unfold ShaderType.structId? at isStruct
    split at isStruct <;> simp_all

theorem element_of_array {inner : List ArraySize} (arrays : t.arrays = size :: inner) :
    ∃ element, Typed p s { t with arrays := inner } packing rowMajor element ∧
      (Codegen.arrayStride? p { type := t, packing, rowMajor } t).all (· < UInt32.size) ∧
      ((∃ length, s.builder.HasLength size length ∧ s.builder.TrueArray element length
          (Codegen.arrayStride? p { type := t, packing, rowMajor } t) id) ∨
        size = .unsized ∧ s.builder.TrueRuntimeArray element
          (Codegen.arrayStride? p { type := t, packing, rowMajor } t) id) := by
  cases h with
  | array same typed fits sized array =>
    obtain ⟨rfl, rfl⟩ := List.cons.inj (arrays.symm.trans same)
    exact ⟨_, typed, fits, .inl ⟨_, sized, array⟩⟩
  | runtimeArray same typed fits array =>
    obtain ⟨rfl, rfl⟩ := List.cons.inj (arrays.symm.trans same)
    exact ⟨_, typed, fits, .inr ⟨rfl, array⟩⟩
  | void other | number other | handle other | reference other | struct other =>
      simp [arrays] at other

theorem of_struct {u : ShaderType}
    (arrays : t.arrays = []) (isStruct : t.structId? = some struct) (arrays' : u.arrays = [])
    (isStruct' : u.structId? = some struct) : Typed p s u packing rowMajor id := by
  obtain ⟨decl, members, declared, fits, form, count, typed, notes⟩ :=
    h.members_of_struct arrays isStruct
  exact .struct arrays' isStruct' declared fits form count typed notes

theorem of_reference (arrays : t.arrays = []) (basic : t.basic = .reference struct) :
    ∃ r, s.references.lookup struct = some r ∧ r.type = id := by
  cases h with
  | reference _ same found =>
    obtain rfl := BasicType.reference.inj (same.symm.trans basic)
    exact ⟨_, found, rfl⟩
  | void _ other => simp [basic] at other
  | number _ other => simp [basic, BasicType.declaration?] at other
  | handle _ other => simp [basic, ShaderType.isOpaque] at other
  | struct _ other => simp [basic, ShaderType.structId?] at other
  | array other | runtimeArray other => simp [arrays] at other

/-- A structure that has a type does not contain itself: its type is made of the types of its
members. -/
theorem acc :
    ∀ struct, t.structId? = some struct → Acc (fun inner outer => p.Holds outer inner) struct := by
  induction h with
  | void _ basic | reference _ basic => simp [ShaderType.structId?, basic]
  | number _ basic =>
    intro struct isStruct
    unfold ShaderType.structId? at isStruct
    split at isStruct <;> simp_all [BasicType.declaration?]
  | handle _ basic =>
    intro struct isStruct
    unfold ShaderType.isOpaque at basic
    unfold ShaderType.structId? at isStruct
    split at isStruct <;> simp_all
  | struct _ same declared _ _ count _ _ ih =>
    intro struct isStruct
    cases same.symm.trans isStruct
    constructor
    rintro inner ⟨decl, m, declared', member, present, isInner⟩
    cases declared.symm.trans declared'
    obtain ⟨source, hsource⟩ := List.mem_iff_getElem?.1 member
    have listed : (m, source) ∈ p.presentMembers _ :=
      List.mem_filter.2 ⟨List.mem_zipIdx_iff_getElem?.2 hsource, present⟩
    obtain ⟨k, hk⟩ := List.mem_iff_getElem?.1 listed
    have bound : k < _ := (List.getElem?_eq_some_iff.1 hk).1
    rw [← count] at bound
    exact ih k m source _ hk (List.getElem?_eq_getElem bound) inner isInner
  | array _ _ _ _ _ ih | runtimeArray _ _ _ _ ih => exact ih

end Typed

end ShaderGen
