import ShaderGen.Proofs.Scope.Ledger

/-!
# What narrow numbers require

The capabilities for numbers of eight and sixteen bits are read off the declarations of a module.
`Module.Reaches` says which numbers a type holds, by the declarations alone. The search for them
goes only as deep as there are declarations, which is enough since a type is declared behind its
parts (`Module.mem_kindsOf`). `Module.narrow_storage_exact` then says that the capabilities for
storing are those that the pointer types ask for, and that no narrow number goes without any
capability.
-/

namespace ShaderGen

open List

variable {m : Module} {kind : ScalarKind} {storage : StorageClass} {i : Instruction} {id : Ident}

/-! ## The numbers that a type holds -/

namespace Instruction

/-- Declares a type of numbers. -/
def IsNumber (i : Instruction) (kind : ScalarKind) : Prop :=
  i.op = (if kind.float then .typeFloat else .typeInt) ∧
    i.operands.head? = some (.literal kind.width)

/-- The types that a type is made of. What a pointer points to is no part of the pointer type. -/
def parts (i : Instruction) : List Ident :=
  match i.op with
  | .typeVector | .typeMatrix | .typeArray | .typeRuntimeArray => Operand.ids (i.operands.take 1)
  | .typeStruct => i.ids
  | _ => []

theorem IsNumber.scalarKind? (h : i.IsNumber kind) (result : i.result = some id) :
    i.scalarKind? = some (id, kind) := by
  obtain ⟨op, head⟩ := h
  obtain ⟨rest, operands⟩ := head?_eq_some_iff.1 head
  obtain ⟨width, float⟩ := kind
  cases float <;> simp_all [Instruction.scalarKind?]

theorem isNumber_of_scalarKind? (h : i.scalarKind? = some (id, kind)) :
    i.result = some id ∧ i.IsNumber kind := by
  unfold Instruction.scalarKind? at h
  split at h <;> cases h <;> simp_all [IsNumber]

theorem typeParts?_of_mem_parts (result : i.result = some id) {x : Ident} (h : x ∈ i.parts) :
    i.typeParts? = some (id, i.parts) ∧ i.scalarKind? = none := by
  unfold parts at h ⊢
  split at h <;> simp_all [typeParts?, scalarKind?, ids]

theorem parts_of_typeParts? {types : List Ident} (h : i.typeParts? = some (id, types)) :
    i.result = some id ∧ i.parts = types := by
  unfold typeParts? at h
  split at h <;> cases h <;> simp_all [parts, ids]

end Instruction

/-- Where every id is declared once, a table of declarations says of an id what its declaration
does. -/
theorem lookup_filterMap_of_mem {α : Type} {f : Instruction → Option (Ident × α)}
    {is : List Instruction}
    (keyed : ∀ i id a, f i = some (id, a) → i.result = some id) (once : (results is).Nodup)
    (hi : i ∈ is)
    (result : i.result = some id) : (is.filterMap f).lookup id = (f i).map Prod.snd := by
  induction is with
  | nil => cases hi
  | cons j rest ih =>
    rw [results_cons, nodup_append] at once
    obtain ⟨-, once', apart⟩ := once
    have declared : ∀ k ∈ rest, ∀ x, k.result = some x → x ∈ results rest :=
      fun k hk x hx => mem_filterMap.2 ⟨k, hk, hx⟩
    rcases mem_cons.1 hi with rfl | hi
    · cases hf : f i with
      | none =>
        rw [filterMap_cons_none hf, Option.map_none, lookup_eq_none_iff]
        rintro ⟨x, a⟩ mem
        obtain ⟨k, hk, row⟩ := mem_filterMap.1 mem
        have := apart id (by simp [result]) x (declared k hk x (keyed k x a row))
        simpa using this
      | some row =>
        obtain ⟨x, a⟩ := row
        cases (keyed i x a hf).symm.trans result
        simp [filterMap_cons_some hf]
    · cases hf : f j with
      | none => rw [filterMap_cons_none hf, ih once' hi]
      | some row =>
        obtain ⟨x, a⟩ := row
        have other := apart x (by simp [keyed j x a hf]) id (declared i hi id result)
        rw [filterMap_cons_some hf, lookup_cons, beq_false_of_ne other.symm]
        exact ih once' hi

namespace Module

/-- Every id is declared once, and a type is declared behind its parts. -/
structure TypesInOrder (m : Module) : Prop where
  once : (results m.globals).Nodup
  earlier : ∀ k, (h : k < m.globals.length) →
  ∀ x ∈ m.globals[k].parts, x ∈ results (m.globals.take k)

/-- A type is one of numbers of the kind, or has a part that reaches them. -/
inductive Reaches (m : Module) (kind : ScalarKind) : Ident → Prop
  | number {i : Instruction} {id : Ident} (declared : i ∈ m.globals) (result : i.result = some id)
      (number : i.IsNumber kind) : Reaches m kind id
  | part {i : Instruction} {id x : Ident} (declared : i ∈ m.globals) (result : i.result = some id)
      (part : x ∈ i.parts) (reaches : Reaches m kind x) : Reaches m kind id

theorem reaches_of_mem_kindsWithin {depth : Nat} (h : kind ∈ m.kindsWithin depth id) :
    m.Reaches kind id := by
  induction depth generalizing id with
  | zero => cases h
  | succ depth ih =>
    rw [kindsWithin] at h
    split at h
    · rename_i found
      obtain ⟨before, after, split, -⟩ := lookup_eq_some_iff.1 found
      obtain ⟨i, declared, row⟩ := mem_filterMap.1 (split ▸ mem_append_right before mem_cons_self)
      obtain ⟨result, number⟩ := Instruction.isNumber_of_scalarKind? row
      exact .number declared result (mem_singleton.1 h ▸ number)
    · obtain ⟨x, part, reaches⟩ := mem_flatMap.1 h
      cases found : m.typeParts.lookup id with
      | none => simp [found] at part
      | some types =>
        obtain ⟨before, after, split, -⟩ := lookup_eq_some_iff.1 found
        obtain ⟨i, declared, row⟩ := mem_filterMap.1 (split ▸ mem_append_right before mem_cons_self)
        obtain ⟨result, rfl⟩ := Instruction.parts_of_typeParts? row
        exact .part declared result (by simpa [found] using part) (ih reaches)

variable {before : List Instruction}

namespace TypesInOrder

variable (order : m.TypesInOrder) (declared : i ∈ m.globals) (result : i.result = some id)

include order declared result

theorem lookup_scalarKinds : m.scalarKinds.lookup id = i.scalarKind?.map Prod.snd :=
  lookup_filterMap_of_mem (fun _ _ _ row => (Instruction.isNumber_of_scalarKind? row).1) order.once
    declared result

theorem lookup_typeParts : m.typeParts.lookup id = i.typeParts?.map Prod.snd :=
  lookup_filterMap_of_mem (fun _ _ _ row => (Instruction.parts_of_typeParts? row).1) order.once
    declared result

theorem mem_of_split {after : List Instruction} (split : m.globals = before ++ after)
    (mem : id ∈ results before) : i ∈ before := by
  rcases mem_append.1 (split ▸ declared) with here | later
  · exact here
  · have once := order.once
    rw [split, results_append, nodup_append] at once
    exact absurd rfl (once.2.2 id mem id (mem_filterMap.2 ⟨i, later, result⟩))

end TypesInOrder

/-- The search finds a number if it may go as deep as there are declarations up to the type. -/
theorem Reaches.mem_kindsWithin (order : m.TypesInOrder) (h : m.Reaches kind id)
    {after : List Instruction} (split : m.globals = before ++ after) (mem : id ∈ results before)
    {depth : Nat} (deep : before.length ≤ depth) : kind ∈ m.kindsWithin depth id := by
  induction h generalizing before after depth with
  | number declared result number =>
    have here := order.mem_of_split declared result split mem
    obtain ⟨depth, rfl⟩ :=
      Nat.exists_eq_add_of_lt (Nat.lt_of_lt_of_le (length_pos_of_mem here) deep)
    rw [Nat.zero_add, kindsWithin, order.lookup_scalarKinds declared result,
      number.scalarKind? result]
    exact mem_singleton_self kind
  | @part i id x declared result part _ ih =>
    obtain ⟨front, back, rfl⟩ := append_of_mem (order.mem_of_split declared result split mem)
    rw [append_assoc, cons_append] at split
    rw [length_append, length_cons, ← Nat.add_assoc] at deep
    obtain ⟨depth, rfl⟩ := Nat.exists_eq_add_of_lt (Nat.lt_of_lt_of_le (Nat.zero_lt_succ _) deep)
    obtain ⟨parts, noNumber⟩ := Instruction.typeParts?_of_mem_parts result part
    rw [Nat.zero_add, kindsWithin, order.lookup_scalarKinds declared result, noNumber,
      order.lookup_typeParts declared result, parts]
    have earlier := order.earlier front.length (by simp [split]) x (by simpa [split] using part)
    exact mem_flatMap.2 ⟨x, part, ih split (by simpa [split] using earlier) (by omega)⟩

theorem mem_kindsOf (order : m.TypesInOrder) : kind ∈ m.kindsOf id ↔ m.Reaches kind id := by
  rw [kindsOf, mem_eraseDups]
  refine ⟨reaches_of_mem_kindsWithin, fun h => ?_⟩
  have declared : id ∈ results m.globals := by
    cases h with
    | number declared result _ | part declared result _ _ =>
      exact mem_filterMap.2 ⟨_, declared, result⟩
  exact h.mem_kindsWithin order (append_nil _).symm declared (Nat.le_succ _)

/-! ## Capabilities -/

/-- Numbers of the kind can be held behind pointers of the storage class. -/
def Stores (m : Module) (storage : StorageClass) (kind : ScalarKind) : Prop :=
  ∃ i ∈ m.globals, i.op = .typePointer ∧ ∃ pointee rest,
    i.operands = .storage storage :: .ref pointee :: rest ∧ m.Reaches kind pointee

theorem mem_storageUses (order : m.TypesInOrder) (sets : SetOrder) {use : Nat × Requirements} :
    use ∈ m.storageUses sets ↔ ∃ storage kind, m.Stores storage kind ∧
    use = (kind.width, kind.storageNeeds storage) ∧
      kind.storageNeeds storage ≠ .none := by
  have empty : ∀ r : Requirements, r.isEmpty = true ↔ r = .none := fun r => by
    obtain ⟨capabilities, extensions⟩ := r
    simp [Requirements.isEmpty, Requirements.none]
  constructor
  · intro mem
    obtain ⟨i, declared, mem⟩ := mem_flatMap.1 mem
    split at mem
    · rename_i storage pointee rest op operands
      obtain ⟨kind, met, row⟩ := mem_filterMap.1 mem
      have reached := (sets.perm _ _).mem_iff.1 met
      obtain ⟨needed, rfl⟩ : kind.storageNeeds storage ≠ .none ∧
        (kind.width, kind.storageNeeds storage) = use := by
        simpa [empty] using row
      have reaches := (mem_kindsOf order).1 reached
      exact ⟨storage, kind, ⟨i, declared, op, pointee, rest, operands, reaches⟩, rfl, needed⟩
    · cases mem
  · rintro ⟨storage, kind, ⟨i, declared, op, pointee, rest, operands, reaches⟩, rfl, needed⟩
    refine mem_flatMap.2 ⟨i, declared, ?_⟩
    rw [op, operands]
    have reached := (mem_kindsOf order).2 reaches
    exact mem_filterMap.2 ⟨kind, (sets.perm _ _).mem_iff.2 reached, by simp [empty, needed]⟩

/-- A property that only something that is required has. -/
theorem exists_storageUses (order : m.TypesInOrder) (sets : SetOrder) {P : Requirements → Prop}
    (needed : ¬ P .none) : (∃ use ∈ m.storageUses sets, P use.2) ↔
      ∃ storage kind, m.Stores storage kind ∧ P (kind.storageNeeds storage) := by
  constructor
  · rintro ⟨use, mem, holds⟩
    obtain ⟨storage, kind, stores, rfl, -⟩ := (mem_storageUses order sets).1 mem
    exact ⟨storage, kind, stores, holds⟩
  · rintro ⟨storage, kind, stores, holds⟩
    exact ⟨_, (mem_storageUses order sets).2 ⟨storage, kind, stores, rfl, fun none =>
      needed (none ▸ holds)⟩, holds⟩

/-- A type of numbers of the kind is declared. -/
def Declares (m : Module) (kind : ScalarKind) : Prop :=
  ∃ i ∈ m.globals, i.result.isSome ∧ i.IsNumber kind

theorem mem_scalarKinds : kind ∈ m.scalarKinds.map Prod.snd ↔ m.Declares kind := by
  constructor
  · intro h
    obtain ⟨⟨id, kind⟩, row, rfl⟩ := mem_map.1 h
    obtain ⟨i, declared, row⟩ := mem_filterMap.1 row
    obtain ⟨result, number⟩ := Instruction.isNumber_of_scalarKind? row
    exact ⟨i, declared, by simp [result], number⟩
  · rintro ⟨i, declared, result, number⟩
    obtain ⟨id, result⟩ := Option.isSome_iff_exists.1 result
    exact mem_map.2 ⟨(id, kind), mem_filterMap.2 ⟨i, declared, number.scalarKind? result⟩, rfl⟩

theorem Reaches.declares (h : m.Reaches kind id) : m.Declares kind := by
  induction h with
  | number declared result number => exact ⟨_, declared, by simp [result], number⟩
  | part _ _ _ _ ih => exact ih

end Module

namespace Requirements

variable {r : Requirements}

theorem capabilities_foldr {uses : List (Nat × Requirements)} :
    (uses.foldr (fun use rest => use.2 ++ rest) r).capabilities =
      uses.flatMap (fun use => use.2.capabilities) ++ r.capabilities ∧
    (uses.foldr (fun use rest => use.2 ++ rest) r).extensions =
      uses.flatMap (fun use => use.2.extensions) ++ r.extensions := by
  induction uses with
  | nil => exact ⟨rfl, rfl⟩
  | cons use rest ih =>
    rw [foldr_cons, flatMap_cons, flatMap_cons, append_assoc, append_assoc, ← ih.1, ← ih.2]
    exact ⟨rfl, rfl⟩

theorem mem_foldl {added : List Capability} : (∀ c, c ∈ (added.foldl (fun needs c =>
      if needs.capabilities.contains c then needs else needs ++ capability c) r).capabilities ↔
        c ∈ r.capabilities ∨ c ∈ added) ∧
    (added.foldl (fun needs c =>
      if needs.capabilities.contains c then needs else needs ++ capability c) r).extensions =
        r.extensions := by
  induction added generalizing r with
  | nil => simp
  | cons a rest ih =>
    rw [foldl_cons]
    split
    · rename_i present
      refine ⟨fun c => (ih.1 c).trans ⟨fun h => h.imp_right (mem_cons_of_mem a), fun h => ?_⟩, ih.2⟩
      rcases h with h | h
      · exact .inl h
      · refine (mem_cons.1 h).imp_left fun same => ?_
        exact same ▸ contains_iff_mem.1 present
    · refine ⟨fun c => ?_, ih.2.trans (append_nil _)⟩
      rw [ih.1 c, mem_cons, ← or_assoc]
      exact or_congr_left (mem_append.trans (or_congr_right mem_singleton))

end Requirements

namespace ScalarKind

theorem arithmeticNeeds_narrow {c : Capability} (h : c ∈ kind.arithmeticNeeds) :
    kind.width < 32 ∧ (c = .int8 ∨ c = .int16 ∨ c = .float16) := by
  unfold arithmeticNeeds at h
  split at h <;> simp_all

theorem storageNeeds_of_width {kind' : ScalarKind} (same : kind'.width = kind.width) :
    kind'.storageNeeds storage = kind.storageNeeds storage := by
  unfold storageNeeds
  rw [same]

/-- Capabilities for storing are no capabilities for computing. -/
theorem storageNeeds_provides (needed : kind.storageNeeds storage ≠ .none) :
    ∃ c e, kind.storageNeeds storage = .provided c e ∧ kind.width < 32 ∧
      ∀ k : ScalarKind, c ∉ k.arithmeticNeeds := by
  unfold storageNeeds at needed ⊢
  split at needed
  case h_11 => exact absurd rfl needed
  all_goals exact ⟨_, _, rfl, by simp_all, fun k h => by simpa using (arithmeticNeeds_narrow h).2⟩

end ScalarKind

namespace Module

/-- What a module with narrow numbers requires: for storing, for computing, and for numbers that it
does neither with. -/
theorem mem_narrowRequirements (declares : m.Declares kind) (narrow : kind.width < 32)
    (sets : SetOrder) :
    (∀ c, c ∈ (m.narrowRequirements sets).capabilities ↔
      (∃ use ∈ m.storageUses sets, c ∈ use.2.capabilities) ∨
      (∃ k ∈ m.computedKinds, c ∈ k.arithmeticNeeds) ∨
      ∃ k, m.Declares k ∧ (∀ use ∈ m.storageUses sets, use.1 ≠ k.width) ∧ c ∈ k.arithmeticNeeds) ∧
    ∀ e, e ∈ (m.narrowRequirements sets).extensions ↔ ∃ use ∈ m.storageUses sets,
    e ∈ use.2.extensions := by
  have some : ¬ (m.scalarKinds.map Prod.snd).all fun k => 32 ≤ k.width := by
    simp only [all_eq_true, decide_eq_true_eq]
    exact fun wide => Nat.not_le_of_lt narrow (wide kind (mem_scalarKinds.2 declares))
  rw [narrowRequirements, if_neg some]
  refine ⟨fun c => ?_, fun e => ?_⟩
  · rw [Requirements.mem_foldl.1, Requirements.capabilities_foldr.1, mem_append, or_assoc]
    simp only [mem_flatMap, mem_filter, (sets.perm _ _).mem_iff, mem_scalarKinds, Bool.not_eq_true',
      any_eq_false, beq_iff_eq, and_assoc, ne_eq]
  · rw [Requirements.mem_foldl.2, Requirements.capabilities_foldr.2, append_nil, mem_flatMap]

/-- A module without narrow numbers requires nothing, and nor does storing what it declares. -/
theorem narrowRequirements_of_wide (order : m.TypesInOrder) (sets : SetOrder)
    (wide : ∀ kind, m.Declares kind → 32 ≤ kind.width) :
    m.narrowRequirements sets = .none ∧ m.storageUses sets = [] := by
  refine ⟨if_pos (all_eq_true.2 fun kind mem => decide_eq_true (wide kind (mem_scalarKinds.1 mem))),
    ?_⟩
  refine eq_nil_iff_forall_not_mem.2 fun use mem => ?_
  obtain ⟨storage, kind, ⟨_, _, _, _, _, _, reaches⟩, -, needed⟩ :=
    (mem_storageUses order sets).1 mem
  obtain ⟨_, _, -, narrow, -⟩ := ScalarKind.storageNeeds_provides needed
  exact Nat.not_lt.2 (wide kind reaches.declares) narrow

/-- **The capabilities for storing narrow numbers are those that pointer types ask for**, and with
each of them comes its extension. A narrow number that is declared can be stored or computed with.
-/
theorem narrow_storage_exact (order : m.TypesInOrder) (sets : SetOrder) :
    (∀ kind storage, ∀ c ∈ (ScalarKind.storageNeeds kind storage).capabilities,
      c ∈ (m.narrowRequirements sets).capabilities ↔
        ∃ storage' kind', m.Stores storage' kind' ∧
        c ∈ (kind'.storageNeeds storage').capabilities) ∧
    (∀ e, e ∈ (m.narrowRequirements sets).extensions ↔
      ∃ storage kind, m.Stores storage kind ∧ e ∈ (kind.storageNeeds storage).extensions) ∧
    ∀ kind c, (kind, c) ∈ [(⟨8, false⟩, .int8), (⟨16, false⟩, .int16), (⟨16, true⟩, .float16)] →
      m.Declares kind → c ∈ (m.narrowRequirements sets).capabilities ∨
        ∃ storage, ∃ c' ∈ (ScalarKind.storageNeeds kind storage).capabilities,
          c' ∈ (m.narrowRequirements sets).capabilities := by
  have computing : ∀ kind c, (kind, c) ∈ [(⟨8, false⟩, Capability.int8), (⟨16, false⟩, .int16),
      (⟨16, true⟩, .float16)] → c ∈ ScalarKind.arithmeticNeeds kind := by
    simp only [mem_cons, Prod.mk.injEq, not_mem_nil, or_false]
    rintro kind c (⟨rfl, rfl⟩ | ⟨rfl, rfl⟩ | ⟨rfl, rfl⟩) <;> exact mem_singleton_self _
  have capabilities := fun c => exists_storageUses order sets (P := (c ∈ ·.capabilities))
    (by simp [Requirements.none])
  have extensions := fun e => exists_storageUses order sets (P := (e ∈ ·.extensions))
    (by simp [Requirements.none])
  by_cases narrow : ∃ kind, m.Declares kind ∧ kind.width < 32
  · obtain ⟨kind, declares, narrow⟩ := narrow
    obtain ⟨needs, required⟩ := mem_narrowRequirements declares narrow sets
    refine ⟨fun kind storage c mem => (needs c).trans ?_, fun e => (required e).trans
      (extensions e), ?_⟩
    · have needed : kind.storageNeeds storage ≠ .none :=
        fun none => by simp [none, Requirements.none] at mem
      obtain ⟨c', e, same, -, storing⟩ := ScalarKind.storageNeeds_provides needed
      obtain rfl : c = c' := by simpa [same, Requirements.provided] using mem
      simpa [storing] using capabilities c
    · intro kind c listed declares
      have arithmetic := computing kind c listed
      by_cases stored : ∀ use ∈ m.storageUses sets, use.1 ≠ kind.width
      · exact .inl ((needs c).2 (.inr (.inr ⟨kind, declares, stored, arithmetic⟩)))
      · simp only [ne_eq, not_forall, not_not] at stored
        obtain ⟨use, mem, width⟩ := stored
        obtain ⟨storage, kind', -, rfl, needed⟩ := (mem_storageUses order sets).1 mem
        obtain ⟨c', e, same, -⟩ := ScalarKind.storageNeeds_provides needed
        have provides : c' ∈ (kind'.storageNeeds storage).capabilities := by simp [same,
          Requirements.provided]
        exact .inr ⟨storage, c', ScalarKind.storageNeeds_of_width width ▸ provides,
          (needs c').2 (.inl ⟨_, mem, provides⟩)⟩
  · have wide : ∀ kind, m.Declares kind → 32 ≤ kind.width :=
      fun kind declares => Nat.le_of_not_lt fun width => narrow ⟨kind, declares, width⟩
    obtain ⟨none, idle⟩ := narrowRequirements_of_wide order sets wide
    rw [none]
    refine ⟨fun kind storage c mem => ?_, fun e => ?_, fun kind c listed declares => ?_⟩
    · simpa [idle, Requirements.none] using capabilities c
    · simpa [idle, Requirements.none] using extensions e
    · have narrow := (ScalarKind.arithmeticNeeds_narrow (computing kind c listed)).1
      exact absurd narrow (Nat.not_lt.2 (wide kind declares))

/-- A structure that holds vectors of short numbers, behind a pointer for push constants. -/
def packed : Module where
  globals := [
    { op := .typeInt, result := some 1, operands := [.literal 16, .literal 1] },
    { op := .typeVector, result := some 2, operands := [.ref 1, .literal 3] },
    { op := .typeStruct, result := some 3, operands := [.ref 2, .ref 2] },
    { op := .typePointer, result := some 4, operands := [.storage .pushConstant, .ref 3] }]

theorem narrow_storage_exact_packed : packed.TypesInOrder ∧
    packed.Stores .pushConstant ⟨16, false⟩ ∧
    ∀ sets, .storagePushConstant16 ∈ (packed.narrowRequirements sets).capabilities := by
  have order : packed.TypesInOrder := ⟨by decide, by decide⟩
  have number : packed.Reaches ⟨16, false⟩ 1 := .number mem_cons_self rfl ⟨rfl, rfl⟩
  have vector : packed.Reaches ⟨16, false⟩ 2 :=
    .part (mem_cons_of_mem _ mem_cons_self) rfl mem_cons_self number
  have stores : packed.Stores .pushConstant ⟨16, false⟩ :=
    ⟨_, getElem_mem (n := 3) (by decide), rfl, 3, [], rfl, .part (getElem_mem (n := 2) (by decide))
    rfl mem_cons_self vector⟩
  exact ⟨order, stores, fun sets =>
    ((narrow_storage_exact order sets).1 ⟨16, false⟩ .pushConstant _ mem_cons_self).2
    ⟨_, _, stores, mem_cons_self⟩⟩

end Module

end ShaderGen
