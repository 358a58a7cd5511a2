import ShaderGen.Proofs.Typing.Typed

/-!
# The decorations of members

A structure type is decorated as soon as it is made. Of the decorations of its members, those that
say where a member is are the ones by the layout of the structure: exactly one offset for each
member that has an offset, and one majorness and one stride for each matrix
(`Builder.structure_makes`).
-/

namespace ShaderGen

open Annotation (isFirm places)
open Builder List
open Steps (Ends)

variable {d : Decoration} {k : Nat}

/-! ## Steps that write decorations -/

/-- Of the decorations that the step adds, the selected ones are the given ones. -/
def Notes {α : Type} (select : Annotation → Bool) (c : Emit α) (notes : List Annotation) : Prop :=
  ∀ b a b', Ends c b a b' → ∃ extra,
    b'.output.annotations = b.output.annotations ++ extra ∧ extra.filter select = notes

namespace Notes

variable {α β : Type} {select : Annotation → Bool} {notes notes' : List Annotation} {c : Prop}

theorem pure {a : α} : Notes select (Pure.pure a : Emit α) [] := fun b r b' ends => by
  obtain ⟨-, rfl⟩ := Steps.ends_pure ends
  exact ⟨[], by simp, rfl⟩

theorem bind {x : Emit α} {f : α → Emit β} (hx : Notes select x notes)
    (hf : ∀ a, Notes select (f a) notes') : Notes select (x >>= f) (notes ++ notes') := by
  intro b r b'' ends
  obtain ⟨a, b', first, second⟩ := Steps.ends_bind ends
  obtain ⟨extra, added, selected⟩ := hx b a b' first
  obtain ⟨extra', added', selected'⟩ := hf a b' r b'' second
  refine ⟨extra ++ extra', by rw [added', added, append_assoc], ?_⟩
  rw [filter_append, selected, selected']

theorem unselected {x : Emit α} (h : Relates (Adorned fun a => select a = false) x) :
    Notes select x [] := by
  intro b a b' ends
  obtain ⟨extra, added, kinds⟩ := (h b a b' ends).notes
  exact ⟨extra, added, filter_eq_nil_iff.2 fun a mem => by simp [kinds a mem]⟩

theorem after {x : Emit α} {f : α → Emit β} (hx : Relates (Adorned fun a => select a = false) x)
    (hf : ∀ a, Notes select (f a) notes) : Notes select (x >>= f) notes := by
  have both := bind (unselected hx) hf
  rwa [nil_append] at both

/-- A step that may be left out, which adds decorations that are not selected. -/
theorem guard {_ : Decidable c} {x : Emit PUnit} {f : PUnit → Emit β}
    (hx : Relates (Adorned fun a => select a = false) x) (hf : Notes select (f ⟨⟩) notes) :
    Notes select (if c then x >>= f else f ⟨⟩) notes := by
  split
  · exact after hx fun _ => hf
  · exact hf

/-- Several steps that are made only under a condition, before what follows in either case. -/
theorem fork {_ : Decidable c} {x y : Emit β} (hy : Notes select y notes)
    (hx : Notes select y notes → Notes select x notes) :
    Notes select (if c then x else y) notes := by
  split
  · exact hx hy
  · exact hy

theorem annotate {a : Annotation} (h : select a) : Notes select (Builder.annotate a) [a] :=
  fun b _ b' ends => by
    cases ends
    exact ⟨[a], rfl, by simp [h]⟩

theorem forM {f : α → Emit PUnit} {list : List α} {notes : α → List Annotation}
    (h : ∀ a ∈ list, Notes select (f a) (notes a)) :
    Notes select (list.forM f) (list.flatMap notes) := by
  induction list with
  | nil => exact pure
  | cons a rest ih =>
    rw [flatMap_cons]
    exact bind (h a mem_cons_self) fun _ => ih fun c hc => h c (mem_cons_of_mem a hc)

end Notes

/-! ## Decorations that settle nothing -/

abbrev Decoration.IsPlain (d : Decoration) : Prop := d.topic? = none

theorem Decoration.IsPlain.not_placing (h : d.IsPlain) : d.isPlacing = false := by
  cases d <;> first | rfl | cases h

theorem Precision.isPlain {q : Precision} (h : q.decoration? = some d) : d.IsPlain := by
  cases q <;> cases h <;> decide

theorem Interpolation.isPlain {q : Interpolation} (h : q.decoration? = some d) : d.IsPlain := by
  cases q <;> cases h <;> decide

theorem Auxiliary.isPlain {q : Auxiliary} (h : q.decoration? = some d) : d.IsPlain := by
  cases q <;> cases h <;> decide

theorem Storage.isPlain {s : Storage} {target : Target} (h : s.blockDecoration? target = some d) :
    d.IsPlain := by
  unfold Storage.blockDecoration? at h
  split at h
  case h_4 =>
    split at h <;> cases h <;> decide
  all_goals cases h <;> decide

theorem MemoryQualifiers.isPlain {m : MemoryQualifiers} {vulkan : Bool}
    (h : d ∈ m.decorations vulkan) : d.IsPlain := by
  have single : ∀ {c : Bool} {e : Decoration}, d ∈ (if c then [e] else []) → d = e := by
    intro c e mem
    split at mem
    · exact mem_singleton.1 mem
    · cases mem
  unfold MemoryQualifiers.decorations at h
  simp only [mem_append] at h
  rcases h with (((h | h) | h) | h) | h <;> rw [single h] <;> decide

/-! ## Members -/

theorem flatMap_zipIdx {α β : Type} {list : List α} {a : α} (h : list[k]? = some a)
    (g : α → List β) (n : Nat) :
    (list.zipIdx n).flatMap (fun q => if q.2 = n + k then g q.1 else []) = g a := by
  induction list generalizing n k with
  | nil => simp at h
  | cons x rest ih =>
    rw [zipIdx_cons, flatMap_cons]
    cases k with
    | zero =>
      have later : (rest.zipIdx (n + 1)).flatMap (fun q => if q.2 = n + 0 then g q.1 else []) =
        [] := by
        refine flatMap_eq_nil_iff.2 fun q mem => if_neg ?_
        have := le_snd_of_mem_zipIdx mem
        omega
      rw [later]
      simp_all
    | succ k =>
      have same : n + (k + 1) = n + 1 + k := by omega
      rw [if_neg (by omega), nil_append, same]
      exact ih (by simpa using h) (n + 1)

namespace StructUse

variable {use : StructUse} {p : Program} {struct : Ident} {kind : Annotation → Prop}

/-- The decoration of a member. -/
abbrev note (struct : Ident) (k : Nat) (d : Decoration) (argument : Option Operand) : Annotation :=
  { target := struct, member := some k, decoration := d, argument }

section Member

variable {k : Nat} (plain : ∀ d argument, d.IsPlain → kind (note struct k d argument))

include plain

theorem decorateMember_adorned {o : Option Decoration} (h : ∀ d, o = some d → d.IsPlain) :
    Relates (Adorned kind) (o.forM (Builder.decorateMember struct k)) :=
  .optionForM fun d mem => annotate_adorned (plain d _ (h d mem))

theorem decoratePipeMember_adorned (stage : Stage) (q : Qualifier) :
    Relates (Adorned kind) (use.decoratePipeMember stage struct k q) := by
  refine .bind (decorateMember_adorned plain fun d => Interpolation.isPlain) fun _ => ?_
  dsimp only
  split
  · exact .bind (require_adorned (Auxiliary.requirements_general _ _)) fun _ =>
      annotate_adorned (plain _ _ (Auxiliary.isPlain ‹_›))
  · exact .pure

end Member

/-- What the decorations of a member settle. -/
def memberNote (use : StructUse) (offsets : List Nat) (m : StructMember) (source : Nat)
    (topic : Decoration) : Decoration × Option Operand :=
  let rowMajor := m.type.isRowMajor use.rowMajor
  match topic with
  | .rowMajor => (majorness rowMajor, none)
  | .matrixStride => (topic, some (.literal (m.type.matrixStride use.packing rowMajor)))
  | .offset => (topic, (use.offset? offsets m source).map .literal)
  | .location => (topic, m.type.qualifier.layout.location.map .literal)
  | .component => (topic, m.type.qualifier.layout.component.map .literal)
  | _ => (topic, m.type.qualifier.builtIn.map .builtIn)

theorem decorateMember_adorns (offsets : List Nat) (m : StructMember) (source k : Nat)
    (own : ∀ d argument, d ≠ .arrayStride → (∀ topic, d.topic? = some topic →
      (d, argument) = use.memberNote offsets m source topic) → kind (note struct k d argument)) :
    Relates (Adorned kind) (use.decorateMember p struct offsets m source k) := by
  have plain : ∀ d argument, d.IsPlain → kind (note struct k d argument) := by
    intro d argument h
    refine own d argument ?_ fun topic found => ?_
    · rintro rfl
      cases h
    · rw [h] at found
      cases found
  have settle : ∀ {d topic argument}, d ≠ .arrayStride → d.topic? = some topic →
      (d, argument) = use.memberNote offsets m source topic →
      Relates (Adorned kind) (Builder.annotate (note struct k d argument)) := by
    intro d topic argument other found settled
    refine annotate_adorned (own d argument other fun topic' found' => ?_)
    cases found.symm.trans found'
    exact settled
  have each : ∀ {α : Type} {o : Option α} {f : α → Operand} {d topic : Decoration},
      d ≠ .arrayStride → d.topic? = some topic →
      use.memberNote offsets m source topic = (d, o.map f) → Relates (Adorned kind)
        (o.forM fun a => Builder.annotate (note struct k d (some (f a)))) :=
    fun other found settled => .optionForM fun a mem =>
      settle other found (by rw [settled, Option.mem_def.1 mem, Option.map_some])
  have major : ∀ row, majorness row ≠ .arrayStride ∧ (majorness row).topic? = some .rowMajor := by
    decide
  refine .bind (addName_adorned _) fun _ => ?_
  refine .bind (decorateMember_adorned plain fun d => Precision.isPlain) fun _ => ?_
  refine .guard (decoratePipeMember_adorned plain _ _) ?_
  refine .guard (annotate_adorned (plain _ _ rfl)) ?_
  refine .fork ?_ fun rest => .bind .getEmit fun b => .bind (.forM fun d mem => ?_) fun _ => rest
  · refine .guard (each (by simp) rfl rfl) (.bind (each (by simp) rfl rfl) fun _ => ?_)
    refine .bind (each (by simp) rfl rfl) fun _ => ?_
    refine .fork ?_ fun rest => .bind (settle (major _).1 (major _).2 rfl) fun _ =>
      .bind (settle (by simp) rfl rfl) fun _ => rest
    exact .bind (require_adorned (builtInRequirements_general _ _ _)) fun _ =>
      each (by simp) rfl rfl
  · exact annotate_adorned (plain d _ (MemoryQualifiers.isPlain mem))

theorem places_note {argument : Option Operand} :
    (note struct k d argument).places struct k = d.isPlacing := by
  simp [places]

theorem placing_notes (decl : StructDecl) (m : StructMember) (source k : Nat) {rest : Emit Unit}
    (quiet : Notes (places struct k) rest []) : Notes (places struct k) (do
      (use.offset? (p.structLayout use.packing decl use.rowMajor).offsets m source).forM
        (decorateMemberWith struct k .offset)
      if use.packing.isExplicit && 0 < m.type.matrixCols then
        let rowMajor := m.type.isRowMajor use.rowMajor
        Builder.decorateMember struct k (majorness rowMajor)
        decorateMemberWith struct k .matrixStride (m.type.matrixStride use.packing rowMajor)
      rest : Emit Unit)
      (p.placingNotes decl use.packing use.rowMajor struct m source k) := by
  have major : ∀ row, (majorness row).isPlacing := by decide
  refine .bind ?_ fun _ => ?_
  · have same : p.memberOffset? decl use.packing use.rowMajor m source =
      use.offset? (p.structLayout use.packing decl use.rowMajor).offsets m source := rfl
    rw [same]
    cases use.offset? (p.structLayout use.packing decl use.rowMajor).offsets m source with
    | none => exact .pure
    | some offset => exact .annotate places_note
  · split
    · refine .bind (.annotate (places_note.trans (major _))) fun _ => ?_
      refine .bind (.annotate places_note) fun _ => quiet
    · exact quiet

/-- The decorations that say where a member is are those by the layout. -/
theorem decorateMember_notes (decl : StructDecl) (m : StructMember) (source k : Nat) :
    Notes (places struct k)
      (use.decorateMember p struct (p.structLayout use.packing decl use.rowMajor).offsets
        m source k) (p.placingNotes decl use.packing use.rowMajor struct m source k) := by
  have plain : ∀ d argument, d.IsPlain →
      (fun a => Annotation.places struct k a = false) (note struct k d argument) :=
    fun d argument h => places_note.trans h.not_placing
  have other : ∀ d argument, d.isPlacing = false →
      Relates (Adorned fun a => a.places struct k = false)
        (Builder.annotate (note struct k d argument)) :=
    fun d argument h => annotate_adorned (places_note.trans h)
  refine .after (addName_adorned _) fun _ => ?_
  refine .after (decorateMember_adorned plain fun d => Precision.isPlain) fun _ => ?_
  refine .guard (decoratePipeMember_adorned plain _ _) ?_
  refine .guard (other _ _ (by decide)) ?_
  have quiet : Notes (places struct k) (do
      require (builtInRequirements m.type.qualifier.builtIn p.stage true)
      m.type.qualifier.builtIn.forM (decorateMemberBuiltIn struct k) : Emit Unit) [] :=
    .unselected (.bind (require_adorned (builtInRequirements_general _ _ _)) fun _ =>
      .optionForM fun b _ => other _ _ (by decide))
  refine .fork ?_ fun rest => .after .getEmit fun b => .after (.forM fun d mem => ?_) fun _ => rest
  · refine .guard (.optionForM fun n _ => other _ _ (by decide)) ?_
    refine .after (.optionForM fun n _ => other _ _ (by decide)) fun _ => ?_
    exact placing_notes decl m source k quiet
  · exact other d _ (MemoryQualifiers.isPlain mem).not_placing

/-- What the decorations of the members of a structure type settle. -/
def structNote (use : StructUse) (p : Program) (decl : StructDecl) (member : Option Nat)
    (topic : Decoration) : Decoration × Option Operand :=
  match member.bind ((p.presentMembers decl)[·]?) with
  | some (m, source) =>
    use.memberNote (p.structLayout use.packing decl use.rowMajor).offsets m source topic
  | none => (topic, none)

theorem decorate_adorns (id : StructId) (decl : StructDecl) :
    Relates (Adorned (OwnNote struct (use.structNote p decl))) (use.decorate p id decl struct) := by
  refine .bind (.forM fun q mem => ?_) fun _ => ?_
  · obtain ⟨⟨m, source⟩, k⟩ := q
    have present := mem_zipIdx_iff_getElem?.1 mem
    refine decorateMember_adorns _ _ _ _ fun d argument other settled => ⟨fun _ => rfl, other, ?_⟩
    simpa [structNote, present] using settled
  · split
    · refine .optionForM fun d mem => annotate_adorned ?_
      have plain := Storage.isPlain mem
      refine ⟨fun _ => rfl, ?_, by simp [plain]⟩
      rintro rfl
      cases plain
    · exact .pure

/-- Of the decorations of a structure type, those that say where a member is are the ones by its
layout. -/
theorem decorate_notes (id : StructId) (decl : StructDecl) {m : StructMember}
    {source : Nat} (present : (p.presentMembers decl)[k]? = some (m, source)) :
    Notes (places struct k) (use.decorate p id decl struct)
      (p.placingNotes decl use.packing use.rowMajor struct m source k) := by
  have members : Notes (places struct k)
      ((p.presentMembers decl).zipIdx.forM fun q => use.decorateMember p struct
        (p.structLayout use.packing decl use.rowMajor).offsets q.1.1 q.1.2 q.2)
      ((p.presentMembers decl).zipIdx.flatMap fun q => if q.2 = 0 + k then
        p.placingNotes decl use.packing use.rowMajor struct q.1.1 q.1.2 k else []) := by
    refine .forM fun q _ => ?_
    obtain ⟨⟨m', source'⟩, k'⟩ := q
    rw [Nat.zero_add]
    by_cases same : k' = k
    · subst same
      rw [if_pos rfl]
      exact decorateMember_notes decl m' source' k'
    · rw [if_neg same]
      refine .unselected (decorateMember_adorns _ _ _ _ fun d argument _ _ => ?_)
      simp [places, same]
  rw [flatMap_zipIdx present
    (fun q => p.placingNotes decl use.packing use.rowMajor struct q.1 q.2 k) 0]
    at members
  rw [← append_nil (p.placingNotes _ _ _ _ _ _ _)]
  refine .bind members fun _ => .unselected ?_
  split
  · exact .optionForM fun d _ => annotate_adorned (by simp [places])
  · exact .pure

end StructUse

namespace Builder

variable {b b1 b2 : Builder} {type : Ident}

/-- No member of the next type is placed yet. -/
theorem Tidy.placingNotes_bound (tidy : b.Tidy) (k : Nat) :
    b.output.annotations.filter (places b.output.bound k) = [] := by
  refine filter_eq_nil_iff.2 fun a mem yes => ?_
  simp only [places, Bool.and_eq_true, beq_iff_eq] at yes
  have below := tidy.firm a mem (by simp [isFirm, yes.1.2])
  rw [yes.1.1] at below
  exact Nat.lt_irrefl _ below

theorem structure_makes {members : List Ident} {text : String} {use : StructUse} {p : Program}
    {id : StructId} {decl : StructDecl} {u : Unit}
    (first : Ends (typeStruct members text) b type b1)
    (second : Ends (use.decorate p id decl type) b1 u b2) (tidy : b.Tidy) :
    b2.Tidy ∧ b.Later b2 ∧ b2.form? type = some (.struct members) ∧
      ∀ k m source, (p.presentMembers decl)[k]? = some (m, source) →
        b2.placingNotes type k = p.placingNotes decl use.packing use.rowMajor type m source k := by
  obtain ⟨tidy2, later, rfl, form⟩ :=
    typeStruct_makes first (StructUse.decorate_adorns id decl b1 u b2 second) tidy
  refine ⟨tidy2, later, form, fun k m source present => ?_⟩
  obtain ⟨none, notes, nothing⟩ := (typeStruct_adorned (fun _ => False) first tidy).2.notes
  obtain rfl := eq_nil_iff_forall_not_mem.2 nothing
  obtain ⟨extra, added, selected⟩ := StructUse.decorate_notes id decl present b1 u b2 second
  rw [append_nil] at notes
  have before : b1.output.annotations.filter (places b.output.bound k) = [] := by
    rw [notes]
    simpa [addType, TypeForm.stride?] using tidy.placingNotes_bound k
  rw [placingNotes, added, filter_append, before, nil_append, selected]

end Builder

end ShaderGen
