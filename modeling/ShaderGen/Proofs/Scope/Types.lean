import ShaderGen.Proofs.Generation.Rules

/-!
# Types and constants can be used anywhere

Every type and constant that a builder gives out is defined at module scope, whether it has just
been declared or was remembered. No code is written for it.
-/

namespace ShaderGen

open List

variable {w : Stance} {f : Builder → Builder}

/-! ## Declarations about the module -/

theorem Provides.quiet (new : List Ident)
    (h : ∀ b : Builder, b.Quiet (f b) new) (same : ∀ b, (f b.stripped).stripped = (f b).stripped) :
    Provides w (new.map .shared) (modify f : Emit PUnit) fun _ => [] :=
  ⟨.quiet new h, Builder.alter_silent (fun b => (h b).code) same⟩

namespace Builder

theorem answer_provides (q : Request) : Provides w [] (answer q) fun _ => [] :=
  .quiet []
  (fun _ => ⟨⟨⟨rfl, rfl, rfl⟩, rfl, rfl, rfl, fun _ _ => id⟩, rfl, rfl, rfl, rfl, fun _ => .inl⟩)
    fun _ => rfl

theorem addCapability_provides (c : Capability) : Provides w [] (addCapability c) fun _ => [] := by
  refine .bind (Provides.quiet [] (fun b => ?_) fun b => by simp only [apply_ite stripped]; rfl)
    fun _ => (answer_provides _).last
  split
  · exact .refl b []
  · exact ⟨⟨⟨rfl, rfl, rfl⟩, rfl, rfl, rfl, fun _ _ => id⟩, rfl, rfl, rfl, rfl, fun _ => .inl⟩

theorem addExtension_provides (name : String) : Provides w [] (addExtension name) fun _ => [] := by
  refine .quiet [] (fun b => ?_) fun b => by simp only [apply_ite stripped]; rfl
  split
  · exact .refl b []
  · exact ⟨⟨⟨rfl, rfl, rfl⟩, rfl, rfl, rfl, fun _ _ => id⟩, rfl, rfl, rfl, rfl, fun _ => .inl⟩

theorem useExtension_provides (e : Extension) : Provides w [] (useExtension e) fun _ => [] := by
  refine .lookEmit (fun _ => rfl) fun b => ?_
  exact .guard (fun _ => addExtension_provides e.name) (answer_provides _).last

theorem require_provides (r : Requirements) : Provides w [] (require r) fun _ => [] := by
  refine .bind (.forM fun c _ => addCapability_provides c) fun _ => ?_
  exact .last (.forM fun e _ => useExtension_provides e)

theorem usePhysicalAddresses_provides : Provides w [] usePhysicalAddresses fun _ => [] := by
  refine .bind (addCapability_provides _) fun _ => .bind (useExtension_provides _) fun _ => ?_
  refine .last (Provides.quiet [] (fun b => ?_) fun _ => rfl)
  exact ⟨⟨⟨rfl, rfl, rfl⟩, rfl, rfl, rfl, fun _ _ => id⟩, rfl, rfl, rfl, rfl, fun _ => .inl⟩

/-! ## Names and decorations -/

theorem annotate_provides {a : Annotation} {x : Ident} (target : a.target = x)
    (literal : Operand.ids a.argument.toList = []) : Provides w [.value x] (annotate a) fun _ =>
    [] := by
  subst target
  refine ⟨.notes (fun _ => ⟨⟨rfl, rfl, rfl⟩, rfl, rfl, rfl, fun _ _ => id⟩)
    fun l b hs sound hold => ?_, alter_silent (fun _ => ⟨rfl, rfl, rfl⟩) fun _ => rfl⟩
  refine { sound.toTables with annotated := fun c hc => ?_ }
  rcases mem_append.1 hc with hc | hc
  · exact sound.annotated c hc
  · obtain rfl := mem_singleton.1 hc
    exact ⟨(hold _ mem_cons_self hs).2, literal⟩

variable (target : Ident)

theorem decorate_provides (d : Decoration) :
    Provides w [.value target] (decorate target d) fun _ => [] := annotate_provides rfl rfl

theorem decorateWith_provides (d : Decoration) (n : Nat) :
    Provides w [.value target] (decorateWith target d n) fun _ => [] := annotate_provides rfl rfl

theorem decorateBuiltIn_provides (value : BuiltIn) :
    Provides w [.value target] (decorateBuiltIn target value) fun _ => [] :=
    annotate_provides rfl rfl

theorem addName_provides (n : DebugName) : Provides w [.value n.target] (addName n) fun _ =>
    [] := by
  refine ⟨.notes (fun b => ?_) fun l b hs sound hold => ?_,
    alter_silent (fun b => by split <;> exact ⟨rfl, rfl, rfl⟩) fun b => by
      simp only [apply_ite stripped]
      split <;> split <;> rfl⟩
  · split <;> exact ⟨⟨rfl, rfl, rfl⟩, rfl, rfl, rfl, fun _ _ => id⟩
  split
  · refine { sound.toTables with named := fun c hc => ?_ }
    rcases mem_append.1 hc with hc | hc
    · exact sound.named c hc
    · exact mem_singleton.1 hc ▸ (hold _ mem_cons_self hs).2
  · exact sound.toTables

theorem name_provides (text : String) :
    Provides w [.value target] (name target text) fun _ => [] :=
  addName_provides { target, text }

theorem importSet_provides (text : String) : Provides w [] (importSet text) ([.anywhere ·]) := by
  refine .lookEmit (fun _ => rfl) fun b => ?_
  split
  · rename_i i found
    have member : i.1 ∈ b.lent :=
      mem_append_left _ (mem_map_of_mem (mem_of_find?_eq_some found))
    exact .pure (h := by simp [gives_lent member])
  · refine ⟨?_, .bind fresh_silent fun _ => .bind (alter_silent (fun _ => ⟨rfl, rfl, rfl⟩) fun _ =>
      rfl) fun _ => .pure⟩
    intro l c id c' sound _ ends
    obtain ⟨rfl, rfl⟩ : id = c.output.bound ∧ c' = { c with
        output.bound := c.output.bound + 1
        output.imports := c.output.imports ++ [(c.output.bound, text)] } := by
      cases ends
      exact ⟨rfl, rfl⟩
    have declares : c.Declares { c with
        output.bound := c.output.bound + 1
        output.imports := c.output.imports ++ [(c.output.bound, text)] } := by
      refine ⟨⟨rfl, rfl, rfl⟩, ⟨rfl, rfl, rfl, rfl, rfl, rfl⟩, rfl, ?_, fun _ => id, ?_⟩
      · simp +contextual
      · simp [Module.ids]
    refine ⟨l, fun hs => declares.sound hs (sound hs) ((sound hs).order.mono rfl (fun _ => id)
      (fun _ => Iff.rfl) fun _ _ => id), declares.grows, declares.same, ?_⟩
    refine Fact.allHold_cons (fun _ => ⟨.inl ?_, .inr (declares.ids.mem_iff.2 mem_cons_self)⟩)
      Fact.allHold_nil
    exact mem_map.2 ⟨(c.output.bound, text), mem_append_right _ (by simp), rfl⟩

/-! ## Declaring and remembering types -/

/-- What an instruction at module scope needs of one of the ids that it uses. -/
@[simp] def declarationFact (op : Opcode) (ids : List Ident) (x : Ident) : Fact :=
  if op = .typeArray ∧ ids.getLast? = some x then .length x else .shared x

variable (op : Opcode)

theorem declare_provides (type : Option Ident) (operands : List Operand)
    (plain : op ≠ .typeForwardPointer) :
    Provides w
    ((type.toList ++ Operand.ids operands).map (declarationFact op (Operand.ids operands)))
      (do
        let id ← fresh
        appendGlobal { op, type, result := some id, operands }
        return id : Emit Ident) fun id => [.shared id, .declared op id] := by
  refine ⟨?_, .bind fresh_silent fun _ => .bind (appendGlobal_silent _) fun _ => .pure⟩
  intro l b id b' sound hold ends
  cases ends
  let i : Instruction := { op, type, result := some b.output.bound, operands }
  have declares : b.Declares (b.globalPushed i) := declares_global b rfl
  have member : i ∈ (b.globalPushed i).output.globals :=
    mem_append_right _ (mem_singleton_self i)
  refine ⟨l, fun hs => (sound hs).globalPushed hs rfl plain fun x hx => ?_, declares.grows,
    declares.same, ?_⟩
  · have fact := hold _ (mem_map_of_mem hx)
    unfold declarationFact at fact
    split at fact
    · exact (fact hs).imp_right fun h => ⟨‹_›, h⟩
    · exact .inl (fact hs)
  · refine Fact.allHold_cons (fun _ => global_globalPushed rfl)
      (Fact.allHold_cons (fun _ => ⟨i, member, rfl, rfl⟩) Fact.allHold_nil)

theorem record_provides (id : Ident) (form : TypeForm)
    (h : ∀ storage, form ≠ .pointer storage none) :
    Provides w (form.ids.map .shared) (record id form) fun _ => [] := by
  refine .quiet form.ids (fun b => ?_) fun b => by simp only [apply_ite stripped]; rfl
  split
  · exact .refl b _
  · refine ⟨⟨⟨rfl, rfl, rfl⟩, rfl, rfl, rfl, fun x storage hx => ?_⟩, rfl, rfl, rfl, rfl,
      fun x hx => ?_⟩
    · simp only [form?, lookup_cons] at hx ⊢
      split at hx
      · cases hx
        exact absurd rfl (h storage)
      · exact hx
    · simp only [remembered, flatMap_cons, mem_append] at hx ⊢
      grind

variable (operands : List Operand)

theorem distinctType_provides (plain : op ≠ .typeForwardPointer) :
    Provides w ((Operand.ids operands).map (declarationFact op (Operand.ids operands)))
    (distinctType op operands)
      fun id => [.shared id, .declared op id] :=
  declare_provides op none operands plain

theorem sharedType_provides (plain : op ≠ .typeForwardPointer) :
    Provides w ((Operand.ids operands).map (declarationFact op (Operand.ids operands)))
    (sharedType op operands) ([.shared ·]) := by
  refine .lookEmit (fun _ => rfl) fun b => ?_
  split
  · rename_i id _ found
    have member : id ∈ b.offered :=
      mem_append_right _
        (mem_filterMap.2 ⟨_, mem_of_find?_eq_some found, rfl⟩)
    exact .pure (h := by simp [gives_offered member])
  · exact (distinctType_provides op operands plain).last

variable {before : List Fact} {form : TypeForm}

/-- A type that is declared once, and whose form is remembered. -/
theorem recorded_provides {op : Opcode} {operands : List Operand}
    (h : op ≠ .typeForwardPointer ∧ ∀ storage, form ≠ .pointer storage none) (ids : Entails before
      ((Operand.ids operands).map (declarationFact op (Operand.ids operands)) ++ form.ids.map
        .shared)) :
    Provides w before (do
      let id ← sharedType op operands
      record id form
      return id : Emit Ident) ([.shared ·]) := by
  obtain ⟨types, forms⟩ := entails_append.1 ids
  refine .bind (sharedType_provides op operands h.1) fun id => ?_
  exact .bind (record_provides id form h.2) fun _ => .pure

theorem typeVoid_provides : Provides w [] typeVoid ([.shared ·]) :=
    recorded_provides (by simp) (by simp)

theorem typeBool_provides : Provides w [] typeBool ([.shared ·]) :=
    recorded_provides (by simp) (by simp)

theorem typeInt_provides (width : Nat) (signed : Bool) :
    Provides w [] (typeInt width signed) ([.shared ·]) := by
  unfold typeInt
  exact .guard (fun _ => addCapability_provides _) (recorded_provides (by simp) (by simp))

theorem typeFloat_provides (width : Nat) : Provides w [] (typeFloat width) ([.shared ·]) := by
  unfold typeFloat
  exact .guard (fun _ => addCapability_provides _) (recorded_provides (by simp) (by simp))

theorem typeWord_provides : Provides w [] typeWord ([.shared ·]) :=
  typeInt_provides 32 false

theorem typeVector_provides (component : Ident) (count : Nat) :
    Provides w [.shared component] (typeVector component count) ([.shared ·]) := by
  unfold typeVector
  split
  · exact .pure
  · exact recorded_provides (by simp) (by simp)

theorem typeMatrix_provides (column : Ident) (count : Nat) :
    Provides w [.shared column] (typeMatrix column count) ([.shared ·]) :=
  recorded_provides (by simp) (by simp)

theorem mem_offered_of_lookup {κ : Type} [BEq κ] [LawfulBEq κ] {b : Builder} {key : κ} {x : Ident}
    {table : List (κ × Ident)} (inside : ∀ y ∈ table.map Prod.snd, y ∈ b.remembered)
    (found : table.lookup key = some x) : x ∈ b.offered := by
  obtain ⟨before, after, split, -⟩ := lookup_eq_some_iff.1 found
  refine mem_append_left _ (inside x ?_)
  simp [split]

/-- A look-up in a table of ids, and what happens when there is no entry: an id is made and
remembered. -/
theorem cached_provides {κ : Type} [BEq κ] [LawfulBEq κ] {key : κ}
    {make : Emit Ident} (table : Builder → List (κ × Ident))
    (inside : ∀ b, ∀ y ∈ (table b).map Prod.snd, y ∈ b.remembered)
    (same : ∀ b, table b.stripped = table b) (h : Provides w before make ([.shared ·])) :
    Provides w before (do
      match (table (← get)).lookup key with
      | some id => return id
      | none => make : Emit Ident) ([.shared ·]) := by
  refine .lookEmit (fun b => by rw [same]) fun b => ?_
  split
  · rename_i id found
    exact .pure (h := by simp [gives_offered (mem_offered_of_lookup (inside b) found)])
  · exact h.last

theorem remember_provides (id : Ident)
    (h : ∀ b : Builder, (f b).output = b.output ∧ (f b).place = b.place ∧ (f b).types = b.types ∧
      (f b).interface = b.interface ∧ ∀ x ∈ (f b).remembered, x ∈ b.remembered ∨ x = id)
    (same : ∀ b, (f b.stripped).stripped = (f b).stripped) :
    Provides w [.shared id] (modify f : Emit PUnit) fun _ => [] := by
  refine .quiet [id] (fun b => ?_) same
  obtain ⟨output, place, types, interface, remembered⟩ := h b
  refine ⟨⟨⟨by rw [output], place, by rw [output]⟩, by rw [output], by rw [output], by rw [output],
    fun x storage hx => ?_⟩, by rw [output], by rw [output], by rw [output], interface,
    fun x hx => ?_⟩
  · rwa [form?, types] at hx
  · simpa using remembered x hx

theorem typePointer_provides (storage : StorageClass) (pointee : Ident) :
    Provides w [.shared pointee] (typePointer storage pointee) ([.shared ·]) := by
  refine cached_provides pointerTypes (fun b y hy => by simp [remembered, hy]) (fun _ => rfl) ?_
  refine .bind (h := by simp) (sharedType_provides _ _ (by simp)) fun id => ?_
  refine .bind (remember_provides id (fun b => ⟨rfl, rfl, rfl, rfl, by grind [remembered]⟩) fun _ =>
    rfl) fun _ => ?_
  exact .bind (h := by simp) (record_provides id (.pointer storage (some pointee)) (by simp))
    fun _ => .pure

theorem stridedType_provides (stride : Option Nat) (plain : op ≠ .typeForwardPointer) :
    Provides w ((Operand.ids operands).map (declarationFact op (Operand.ids operands)))
    (stridedType op operands stride) ([.shared ·]) := by
  unfold stridedType
  split
  · refine .bind (distinctType_provides op operands plain) fun id => ?_
    exact .bind (annotate_provides rfl rfl) fun _ => .pure
  · exact sharedType_provides op operands plain

theorem typeArray_provides (element length : Ident) (stride : Option Nat) :
    Provides w [.shared element, .length length] (typeArray element length stride)
      ([.shared ·]) := by
  have operands : Entails [.shared element, .length length]
      ([element, length].map (declarationFact .typeArray [element, length])) := by
    simp only [map_cons, map_nil, declarationFact, entails_cons]
    split <;> simp
  refine cached_provides arrayTypes (fun b y hy => by simp [remembered, hy]) (fun _ => rfl) ?_
  refine .bind (h := operands) (stridedType_provides _ _ stride (by simp)) fun id => ?_
  refine .bind (remember_provides id (fun b => ⟨rfl, rfl, rfl, rfl, by grind [remembered]⟩) fun _ =>
    rfl) fun _ => ?_
  exact .bind (h := by simp) (record_provides id (.array element length stride) (by simp)) fun _ =>
    .pure

theorem typeRuntimeArray_provides (element : Ident) (stride : Option Nat) :
    Provides w [.shared element] (typeRuntimeArray element stride) ([.shared ·]) := by
  refine cached_provides runtimeArrayTypes (fun b y hy => by simp [remembered, hy])
    (fun _ => rfl) ?_
  refine .bind (h := by simp) (stridedType_provides _ _ stride (by simp)) fun id => ?_
  refine .bind (remember_provides id (fun b => ⟨rfl, rfl, rfl, rfl, by grind [remembered]⟩) fun _ =>
    rfl) fun _ => ?_
  exact .bind (h := by simp) (record_provides id (.runtimeArray element stride) (by simp)) fun _ =>
    .pure

theorem typeStruct_provides (members : List Ident) (text : String) :
    Provides w (members.map .shared) (typeStruct members text) fun id =>
    [.shared id, .declared .typeStruct id] := by
  refine .bind (distinctType_provides .typeStruct (Operand.refs members) (by simp))
    (h := by simp +contextual) fun id => ?_
  refine .bind (name_provides id text) fun _ => ?_
  exact .bind (h := by simp) (record_provides id (.struct members) (by simp)) fun _ => .pure

theorem typeFunction_provides (result : Ident) (parameters : List Ident) :
    Provides w ((result :: parameters).map .shared) (typeFunction result parameters)
      ([.shared ·]) :=
  recorded_provides (by simp) (by simp +contextual)

theorem typeSampler_provides : Provides w [] typeSampler ([.shared ·]) :=
  recorded_provides (by simp) (by simp)

theorem typeImage_provides (i : ImageType) :
    Provides w [.shared i.sampled] (typeImage i) ([.shared ·]) :=
  recorded_provides (by simp) (by simp)

theorem typeSampledImage_provides (image : Ident) :
    Provides w [.shared image] (typeSampledImage image) ([.shared ·]) :=
  recorded_provides (by simp) (by simp)

theorem handleType_provides (form : TypeForm) (h : form.ids = [])
    (h' : ∀ storage, form ≠ .pointer storage none) (plain : op ≠ .typeForwardPointer) :
    Provides w [] (handleType op form) ([.shared ·]) := by
  refine cached_provides handleTypes (fun b y hy => by simp [remembered, hy]) (fun _ => rfl) ?_
  refine .bind (distinctType_provides _ _ plain) fun id => ?_
  refine .bind (remember_provides id (fun b => ⟨rfl, rfl, rfl, rfl, by grind [remembered]⟩) fun _ =>
    rfl) fun _ => ?_
  exact .bind (record_provides id form h') (h := by simp [-TypeForm.ids, h]) (fun _ => .pure)

theorem typeAccelerationStructure_provides :
    Provides w [] typeAccelerationStructure ([.shared ·]) :=
  handleType_provides _ _ rfl (by simp) (by simp)

theorem typeRayQuery_provides : Provides w [] typeRayQuery ([.shared ·]) :=
  handleType_provides _ _ rfl (by simp) (by simp)

/-! ## Questions about types -/

section Questions

variable {before : List Fact} {b : Builder} {type x : Ident} [Gives before (.tables b)]

theorem gives_form (found : b.form? type = some form) (hx : x ∈ form.ids) :
    Gives before (.shared x) := by
  obtain ⟨first, rest, split, -⟩ := lookup_eq_some_iff.1 found
  have member : x ∈ b.remembered := by
    simp only [remembered, split, flatMap_append, flatMap_cons, mem_append]
    grind
  exact gives_offered (mem_append_left _ member)

theorem gives_contained {member : Nat} (found : b.contained? type member = some x) :
    Gives before (.shared x) := by
  unfold contained? at found
  split at found
  case h_5 => exact gives_form ‹_› (mem_of_getElem? found)
  case h_6 => exact gives_form ‹_› (by simp [found])
  case h_7 => cases found
  all_goals
    cases found
    exact gives_form ‹_› (by simp)

theorem gives_pointee (found : b.pointee? type = some x) : Gives before (.shared x) := by
  unfold pointee? at found
  split at found
  · exact gives_form ‹_› (by simp [found])
  · cases found

@[simp] instance gives_scalarOf [h : Gives before (.shared type)] :
    Gives before (.shared (b.scalarOf type)) := by
  unfold scalarOf
  split
  · exact gives_form ‹_› (by simp)
  · exact h

theorem gives_partTypes {parts : List Ident} (found : b.partTypes type = .ok parts)
    (hx : x ∈ parts) : Gives before (.shared x) := by
  unfold partTypes at found
  split at found
  · cases found
    exact gives_form ‹_› (by simpa using hx)
  · split at found
    · cases found
      obtain ⟨-, rfl⟩ := mem_replicate.1 hx
      exact gives_form ‹_› (by simp)
    · cases found
  · cases found

end Questions

/-! ## Constants -/

theorem declareConstant_provides (type : Ident) (operands : List Operand)
    (h : op ≠ .typeArray ∧ op ≠ .typeForwardPointer) :
    Provides w (.shared type :: (Operand.ids operands).map .shared)
    (declareConstant op type operands) ([.shared ·]) :=
  (declare_provides op (some type) operands h.2).last (p := by simp +contextual [h.1])

theorem constBool_provides (value : Bool) : Provides w [] (constBool value) ([.shared ·]) := by
  refine .bind typeBool_provides fun type => ?_
  refine cached_provides scalars (fun b y hy => by simp [remembered, hy]) (fun _ => rfl) ?_
  refine .bind (declareConstant_provides _ type [] (by split <;> simp)) fun id => ?_
  exact .bind (remember_provides id (fun b => ⟨rfl, rfl, rfl, rfl, by grind [remembered]⟩) fun _ =>
    rfl) fun _ => .pure

@[simp] theorem ids_literalOperand (b : Builder) (type : Ident) (bits : Nat) :
    Operand.ids [b.literalOperand type bits] = [] := by
  unfold literalOperand
  split <;> rfl

theorem constBits_provides (type : Ident) (bits : Nat) :
    Provides w [.shared type] (constBits type bits) ([.shared ·]) := by
  refine cached_provides scalars (fun b y hy => by simp [remembered, hy]) (fun _ => rfl) ?_
  refine .lookEmit (fun _ => rfl) fun b => ?_
  refine .bind (h := by simp) (declareConstant_provides _ type [b.literalOperand type bits]
    (by simp)) fun id => ?_
  exact .bind (remember_provides id (fun b => ⟨rfl, rfl, rfl, rfl, by grind [remembered]⟩) fun _ =>
    rfl) fun _ => .pure

theorem constWord_provides (value : Nat) : Provides w [] (constWord value) ([.shared ·]) :=
  .bind typeWord_provides fun type => (constBits_provides type value).last

theorem constComposite_provides (type : Ident) (parts : List Ident) :
    Provides w (.shared type :: parts.map .shared) (constComposite type parts) ([.shared ·]) := by
  refine cached_provides composites (fun b y hy => by simp [remembered, hy]) (fun _ => rfl) ?_
  refine .bind (declareConstant_provides _ type (Operand.refs parts) (by simp)) fun id => ?_
  exact .bind (remember_provides id (fun b => ⟨rfl, rfl, rfl, rfl, by grind [remembered]⟩) fun _ =>
    rfl) fun _ => .pure

theorem constNumber_provides (type : Ident) (value : Nat) :
    Provides w [.shared type] (constNumber type value) ([.shared ·]) := by
  refine .lookEmit (fun _ => rfl) fun b => ?_
  split
  · exact (constBits_provides type _).last
  · exact (constBool_provides _).last
  · exact (constBits_provides type value).last

theorem constFilledWithin_provides (depth : Nat) (type : Ident) (value : Nat) :
    Provides w [.shared type] (constFilledWithin depth type value) ([.shared ·]) := by
  induction depth generalizing type with
  | zero => exact constNumber_provides type value
  | succ depth ih =>
    refine .lookEmit (fun _ => rfl) fun b => ?_
    split
    · rename_i component count found
      refine .learn (.shared component) (gives_form found mem_cons_self) ?_
      refine .bind (ih component) fun part => ?_
      exact (constComposite_provides type _).last (p := by simp)
    · exact (constNumber_provides type value).last

theorem constFilled_provides (type : Ident) (value : Nat) :
    Provides w [.shared type] (constFilled type value) ([.shared ·]) :=
  .lookEmit (fun _ => rfl) fun _ => (constFilledWithin_provides _ type value).last

theorem constNull_provides (type : Ident) :
    Provides w [.shared type] (constNull type) ([.shared ·]) := by
  refine cached_provides nulls (fun b y hy => by simp [remembered, hy]) (fun _ => rfl) ?_
  refine .bind (declareConstant_provides _ type [] (by simp)) fun id => ?_
  exact .bind (remember_provides id (fun b => ⟨rfl, rfl, rfl, rfl, by grind [remembered]⟩) fun _ =>
    rfl) fun _ => .pure

theorem specBits_provides (type : Ident) (bits : Nat) :
    Provides w [.shared type] (specBits type bits) ([.shared ·]) := by
  refine .lookEmit (fun _ => rfl) fun b => ?_
  split
  · exact (declareConstant_provides _ type [] (by split <;> simp)).last
  · exact (declareConstant_provides _ type [b.literalOperand type bits] (by simp)).last
      (p := by simp)

theorem specComposite_provides (type : Ident) (parts : List Ident) :
    Provides w (.shared type :: parts.map .shared) (specComposite type parts) ([.shared ·]) :=
  (declareConstant_provides _ type (Operand.refs parts) (by simp)).last

end ShaderGen.Builder
