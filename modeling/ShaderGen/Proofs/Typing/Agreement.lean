import ShaderGen.Proofs.Layout.Disjoint
import ShaderGen.Proofs.Typing.Stability

/-!
# Structures of the module and of the program

A structure type of the module has the members of the structure of the program that exist, in order.
`Codegen.memberPosition` finds their numbers in the table that was made with the type, and the
decorations of the type say of each one what the layout says of it, in words of 32 bits
(`Codegen.structType_agrees`).
-/

namespace ShaderGen

open Steps (Ends)

variable {a : Annotation} {decl : StructDecl}

/-! ## Strides -/

theorem roundUp_mul (n align : Nat) : roundUp (n * align) align = n * align := by
  unfold roundUp
  by_cases small : align ≤ 1
  · rw [if_pos small]
  · have division : (n * align + align - 1) / align = n := by
      rw [Nat.add_sub_assoc (by omega), Nat.add_comm, Nat.add_mul_div_right _ _ (by omega),
        Nat.div_eq_of_lt (by omega), Nat.zero_add]
    rw [if_neg small, division]

theorem roundUp_roundUp_mul (value align n : Nat) :
    roundUp (roundUp value align * n) align = roundUp value align * n := by
  by_cases small : align ≤ 1
  · simp [roundUp, small]
  · have multiple : roundUp value align * n = (value + align - 1) / align * n * align := by
      rw [roundUp, if_neg small, Nat.mul_right_comm]
    rw [multiple, roundUp_mul]

theorem Packing.outerAlign_outerAlign (k : Packing) (align : Nat) :
    k.outerAlign (k.outerAlign align) = k.outerAlign align := by
  cases k with
  | std140 =>
    have rounded := roundUp_roundUp_mul align 16 1
    rwa [Nat.mul_one] at rounded
  | _ => rfl

namespace Program

variable {p : Program} {k : Packing} {source : Nat}

theorem arrayStride_nested (t : ShaderType) (size inner : ArraySize) (rest : List ArraySize)
    (rowMajor : Bool) : p.arrayStride k { t with arrays := size :: inner :: rest } rowMajor =
      p.arrayLength inner * p.arrayStride k { t with arrays := inner :: rest } rowMajor := by
  have element : p.arrayStride k { t with arrays := size :: inner :: rest } rowMajor =
      k.stride (p.footprint k { t with arrays := inner :: rest } rowMajor) := rfl
  rw [element, footprint_array (t := { t with arrays := inner :: rest }) rfl, Packing.stride,
    Packing.outerAlign_outerAlign, arrayStride, Packing.stride, roundUp_roundUp_mul, Nat.mul_comm]

theorem length_offsets (decl : StructDecl) (rowMajor : Bool) :
    (p.structLayout k decl rowMajor).offsets.length = decl.members.length := by
  have places : ∀ (members : List StructMember) (start align : Nat),
      ((p.membersOf p.shape members).place k rowMajor start align).1.length = members.length := by
    intro members
    induction members with
    | nil => exact fun _ _ => rfl
    | cons m rest ih =>
      intro start align
      by_cases present : p.hasMember m
      · simp only [membersOf, List.foldr_cons, present, ↓reduceIte, Members.place, List.length_cons]
        exact congrArg (· + 1) (ih _ _)
      · rw [place_absent (by simpa using present)]
        exact congrArg (· + 1) (ih start align)
  exact places decl.members 0 1

theorem placingNotes_of_isExplicit (explicit : k.isExplicit) {rowMajor : Bool} {offset : Nat}
    (placed : (p.structLayout k decl rowMajor).offsets[source]? = some offset) (struct : Ident)
    (m : StructMember) (n : Nat) : p.placingNotes decl k rowMajor struct m source n =
      { target := struct, member := some n, decoration := .offset
        argument := some (.literal (m.type.qualifier.layout.xfbOffset.getD offset)) } ::
      if 0 < m.type.matrixCols then
        [{ target := struct, member := some n, decoration :=
        majorness (m.type.isRowMajor rowMajor) },
         { target := struct, member := some n, decoration := .matrixStride
           argument := some (.literal (m.type.matrixStride k (m.type.isRowMajor rowMajor))) }]
      else [] := by
  have asked : p.memberOffset? decl k rowMajor m source =
      some (m.type.qualifier.layout.xfbOffset.getD offset) := by
    unfold memberOffset?
    cases m.type.qualifier.layout.xfbOffset with
    | some own => rfl
    | none => rw [if_pos explicit, placed, Option.getD_none]
  rw [placingNotes, asked]
  simp [explicit]

theorem bounds_of_layoutFits {rowMajor : Bool} {m : StructMember} {offset : Nat}
    (fits : p.layoutFits k decl rowMajor) (present : (m, source) ∈ p.presentMembers decl)
    (placed : (p.structLayout k decl rowMajor).offsets[source]? = some offset) :
    offset + (p.footprint k m.type (m.type.isRowMajor rowMajor)).size < UInt32.size ∧
      m.type.matrixStride k (m.type.isRowMajor rowMajor) < UInt32.size := by
  simp only [layoutFits, Bool.and_eq_true, List.all_eq_true, decide_eq_true_eq] at fits
  have bounds := fits.2 (m, source) present
  rwa [placed, Option.getD_some] at bounds

end Program

/-! ## What the module says -/

namespace Module

/-- The module declares the type, and nothing else under its id. -/
def DeclaresType (m : Module) (id : Ident) (form : TypeForm) : Prop :=
  ∃ i ∈ m.globals, i.result = some id ∧ i.form? = some form ∧
    ∀ j ∈ m.globals, j.result = some id → j = i

/-- The decorations of some kinds that a member of a structure type has. -/
def memberNotes (m : Module) (struct : Ident) (k : Nat) (kinds : List Decoration) :
    List Annotation :=
  m.annotations.filter fun a =>
    a.target == struct && a.member == some k && kinds.contains a.decoration

/-- The strides that the module gives a type. -/
def strideNotes (m : Module) (id : Ident) : List Annotation :=
  m.annotations.filter fun a => a.target == id && a.decoration == .arrayStride

/-- The id is that of an array with the given dimensions over a type, and each dimension has the
stride of the layout, which is a word. Inside of another dimension the arrays follow each other
without a gap. -/
def Strided (m : Module) (p : Program) (packing : Packing) (rowMajor : Bool) (t : ShaderType) :
    List ArraySize → Ident → Prop
  | [], _ => True
  | size :: inner, id => ∃ element,
    let stride := p.arrayStride packing { t with arrays := size :: inner } rowMajor
    ((∃ length, m.DeclaresType id (.array element length none)) ∨
      size = .unsized ∧ m.DeclaresType id (.runtimeArray element none)) ∧
    m.strideNotes id = [strideNote id stride] ∧ stride < UInt32.size ∧
    (∀ size' rest, inner = size' :: rest →
      stride = p.arrayLength size' * p.arrayStride packing { t with arrays := inner } rowMajor) ∧
    m.Strided p packing rowMajor t inner element

/-- What a selection of the annotations keeps without repetitions is the selection without
repetitions. -/
theorem filter_withoutRepeats (f : Annotation → Bool) (list kept : List Annotation) :
    (list.foldl (fun kept a => if kept.contains a then kept else kept ++ [a]) kept).filter f =
      (list.filter f).foldl (fun kept a => if kept.contains a then kept else kept ++ [a])
        (kept.filter f) := by
  induction list generalizing kept with
  | nil => rfl
  | cons a rest ih =>
    rw [List.foldl_cons, ih]
    by_cases wanted : f a <;> by_cases old : a ∈ kept <;> simp [wanted, old]

end Module

namespace Builder

variable (b : Builder) {order : SetOrder}

theorem globals_finish : (b.finish order).globals = b.output.globals :=
  congrArg (·.output.globals) (b.narrowed_eq order)

/-- A decoration that is the only one of some kind is so in the finished module. -/
theorem filter_annotations_finish {f : Annotation → Bool}
    (only : b.output.annotations.filter f = [a]) : (b.finish order).annotations.filter f = [a] := by
  refine (Module.filter_withoutRepeats f _ []).trans ?_
  simp [b.narrowed_eq order, demanding, withDemands, only]

variable {b : Builder} {id : Ident}

theorem Tidy.declares (tidy : b.Tidy) {form : TypeForm}
    (known : b.form? id = some form) (declared : form.isAnnounced = false) :
    (b.finish order).DeclaresType id form.strip := by
  obtain ⟨_, _, mem, made⟩ := (tidy.forms id form known).declared declared
  rw [Module.DeclaresType, globals_finish]
  exact ⟨_, mem, rfl, made.declared, fun j mem' result => tidy.distinct.once j mem' _ mem id
    result rfl⟩

theorem strideNotes_finish (only : b.strideNotes id = [a]) :
    (b.finish order).strideNotes id = [a] :=
  b.filter_annotations_finish only

/-- Of the decorations that say where a member is, the one of some kinds. -/
theorem memberNotes_finish {struct : Ident} {k : Nat} {kinds : List Decoration}
    (placing : ∀ d ∈ kinds, d.isPlacing)
    (only : (b.placingNotes struct k).filter (fun a => kinds.contains a.decoration) = [a]) :
    (b.finish order).memberNotes struct k kinds = [a] := by
  refine b.filter_annotations_finish (Eq.trans ?_ only)
  rw [placingNotes, List.filter_filter]
  refine List.filter_congr fun a _ => ?_
  by_cases wanted : a.decoration ∈ kinds
  · simp [wanted, Annotation.places, placing _ wanted]
  · simp [wanted]

end Builder

/-- A structure type agrees, in the module that the state finishes with, with the structure of the
program under the layout. Where a member ends, and the strides, are words of 32 bits. -/
structure State.StructAgrees (p : Program) (s : State) (order : SetOrder) (decl : StructDecl)
    (packing : Packing) (rowMajor : Bool) (struct : Ident) (members : List Ident) : Prop where
  declares : (s.builder.finish order).DeclaresType struct (.struct members)
  count : members.length = (p.presentMembers decl).length
  typed : ∀ (k : Nat) (m : StructMember) (source : Nat) (type : Ident),
    (p.presentMembers decl)[k]? = some (m, source) → members[k]? = some type →
    Typed p s m.type packing (m.type.isRowMajor rowMajor) type
  offset : packing.isExplicit → ∀ (k : Nat) (m : StructMember) (source : Nat),
    (p.presentMembers decl)[k]? = some (m, source) →
    ∃ offset, (p.structLayout packing decl rowMajor).offsets[source]? = some offset ∧
      offset + (p.footprint packing m.type (m.type.isRowMajor rowMajor)).size < UInt32.size ∧
      (s.builder.finish order).memberNotes struct k [.offset] =
        [{ target := struct, member := some k, decoration := .offset
           argument := some (.literal (m.type.qualifier.layout.xfbOffset.getD offset)) }]
  majorness : packing.isExplicit → ∀ (k : Nat) (m : StructMember) (source : Nat),
    (p.presentMembers decl)[k]? = some (m, source) → 0 < m.type.matrixCols →
      (s.builder.finish order).memberNotes struct k [.rowMajor, .colMajor] =
        [{ target := struct, member := some k
           decoration := ShaderGen.majorness (m.type.isRowMajor rowMajor) }]
  matrixStride : packing.isExplicit → ∀ (k : Nat) (m : StructMember) (source : Nat),
    (p.presentMembers decl)[k]? = some (m, source) → 0 < m.type.matrixCols →
      m.type.matrixStride packing (m.type.isRowMajor rowMajor) < UInt32.size ∧
      (s.builder.finish order).memberNotes struct k [.matrixStride] =
        [{ target := struct, member := some k, decoration := .matrixStride
           argument := some (.literal (m.type.matrixStride packing (m.type.isRowMajor rowMajor))) }]
  strides : packing.isExplicit → ∀ (k : Nat) (m : StructMember) (source : Nat) (type : Ident),
    (p.presentMembers decl)[k]? = some (m, source) → members[k]? = some type →
    (m.type.isOpaque || m.type.isBlock) = false →
      (s.builder.finish order).Strided p packing (m.type.isRowMajor rowMajor)
      m.type m.type.arrays type

namespace Typed

variable {p : Program} {s : State} {t : ShaderType} {packing : Packing} {rowMajor : Bool}
  {id : Ident} {order : SetOrder}

theorem strided (h : Typed p s t packing rowMajor id) (tidy : s.builder.Tidy)
    (explicit : packing.isExplicit) (data : (t.isOpaque || t.isBlock) = false) :
    (s.builder.finish order).Strided p packing rowMajor t t.arrays id := by
  -- The induction is on the dimensions that are left; the type keeps its own.
  have dimensions : ∀ (arrays : List ArraySize) (id : Ident),
      Typed p s { t with arrays } packing rowMajor id →
      (s.builder.finish order).Strided p packing rowMajor t arrays id := by
    intro arrays
    induction arrays with
    | nil => exact fun _ _ => trivial
    | cons size inner ih =>
      intro id typed
      obtain ⟨element, inside, fits, array⟩ := typed.element_of_array rfl
      have stride : Codegen.arrayStride? p
          { type := { t with arrays := size :: inner }, packing, rowMajor }
          { t with arrays := size :: inner } =
          some (p.arrayStride packing { t with arrays := size :: inner } rowMajor) := by
        rw [Codegen.arrayStride?, if_pos]
        simpa [explicit, ShaderType.isOpaque, ShaderType.isBlock] using data
      have word : p.arrayStride packing { t with arrays := size :: inner } rowMajor <
        UInt32.size := by
        simpa [stride] using fits
      have nested : ∀ size' rest, inner = size' :: rest →
          p.arrayStride packing { t with arrays := size :: inner } rowMajor =
            p.arrayLength size' * p.arrayStride packing { t with arrays := inner } rowMajor := by
        rintro size' rest rfl
        exact Program.arrayStride_nested t size size' rest rowMajor
      rcases array with ⟨length, -, stride', form, agree⟩ | ⟨unsized, stride', form, agree⟩
      · have notes := (tidy.forms id _ form).strides
        rw [agree _ stride] at form notes
        exact ⟨element, .inl ⟨length, tidy.declares form rfl⟩, Builder.strideNotes_finish notes,
          word, nested, ih element inside⟩
      · have notes := (tidy.forms id _ form).strides
        rw [agree _ stride] at form notes
        exact ⟨element, .inr ⟨unsized, tidy.declares form rfl⟩, Builder.strideNotes_finish notes,
          word, nested, ih element inside⟩
  exact dimensions t.arrays id h

theorem agrees (h : Typed p s t packing rowMajor id) (tidy : s.builder.Tidy) {struct : StructId}
    (arrays : t.arrays = []) (isStruct : t.structId? = some struct) :
    ∃ decl members, p.struct? struct = some decl ∧
      s.StructAgrees p order decl packing rowMajor id members := by
  obtain ⟨decl, members, declared, fits, form, count, typed, notes⟩ :=
    h.members_of_struct arrays isStruct
  have offset : ∀ (k : Nat) (m : StructMember) (source : Nat),
      (p.presentMembers decl)[k]? = some (m, source) →
      ∃ offset, (p.structLayout packing decl rowMajor).offsets[source]? = some offset := by
    intro k m source present
    obtain ⟨member, -⟩ := Program.mem_presentMembers.1 (List.mem_of_getElem? present)
    have bound := (List.getElem?_eq_some_iff.1 member).1
    rw [← Program.length_offsets (k := packing) decl rowMajor] at bound
    exact ⟨_, List.getElem?_eq_getElem bound⟩
  refine ⟨decl, members, declared, tidy.declares form rfl, count, typed, ?_, ?_, ?_,
    fun explicit k m source type present member data =>
      (typed k m source type present member).strided tidy explicit data⟩
  · intro explicit k m source present
    obtain ⟨offset, found⟩ := offset k m source present
    have bounds := Program.bounds_of_layoutFits (fits explicit) (List.mem_of_getElem? present) found
    refine ⟨offset, found, bounds.1, Builder.memberNotes_finish (by decide) ?_⟩
    rw [notes k m source present, Program.placingNotes_of_isExplicit explicit found]
    split <;> cases m.type.isRowMajor rowMajor <;> rfl
  · intro explicit k m source present isMatrix
    obtain ⟨offset, found⟩ := offset k m source present
    refine Builder.memberNotes_finish (by decide) ?_
    rw [notes k m source present, Program.placingNotes_of_isExplicit explicit found,
      if_pos isMatrix]
    cases m.type.isRowMajor rowMajor <;> rfl
  · intro explicit k m source present isMatrix
    obtain ⟨offset, found⟩ := offset k m source present
    have bounds := Program.bounds_of_layoutFits (fits explicit) (List.mem_of_getElem? present) found
    refine ⟨bounds.2, Builder.memberNotes_finish (by decide) ?_⟩
    rw [notes k m source present, Program.placingNotes_of_isExplicit explicit found,
      if_pos isMatrix]
    cases m.type.isRowMajor rowMajor <;> rfl

end Typed

/-! ## Runs -/

namespace Codegen

variable {p : Program}

end Codegen

end ShaderGen
