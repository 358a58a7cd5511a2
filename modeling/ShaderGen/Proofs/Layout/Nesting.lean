import Mathlib.Data.List.Perm.Subperm
import ShaderGen.Layout.Placement

/-!
# Shapes do not depend on the depth

`Program.shape` follows structures to a depth that the number of structures gives. In a program
whose structures do not contain themselves by value that depth is never used up: a chain of
structures, each held by the one before it, has no repetition, so it is no longer than the list of
structures. Hence the shape of a structure is made of the shapes of its members
(`Placeable.shape_struct`), and its footprint is the one that placing its members gives
(`Placeable.footprint_struct`).
-/

namespace ShaderGen

open List

variable {t : ShaderType} {id : StructId}

/-- Numbers of whole bytes, truth values and references. -/
def BasicType.IsScalar : BasicType → Prop
  | .bool | .reference _ => True
  | .int width | .uint width | .float width => width ∈ [8, 16, 32, 64]
  | _ => False

instance (b : BasicType) : Decidable b.IsScalar := by
  unfold BasicType.IsScalar
  split <;> infer_instance

/-- A member that asks for no offset, and for no alignment that is not a power of two. -/
structure StructMember.AsksLittle (m : StructMember) : Prop where
  offset : m.type.qualifier.layout.offset = none
  align : ∀ a ∈ m.type.qualifier.layout.align, a.isPowerOfTwo

namespace Program

variable {p : Program} {s : StructDecl}

/-- The types whose values have a place in memory: scalars, vectors, matrices, arrays and
structures, nested to any depth. No such type contains itself by value, since a derivation is
finite. -/
inductive Placeable (p : Program) : ShaderType → Prop
  | vector {t : ShaderType} (arrays : t.arrays = []) (cols : t.matrixCols = 0)
      (size : t.vectorSize ≤ 4) (basic : t.basic.IsScalar) : Placeable p t
  | matrix {t : ShaderType} (arrays : t.arrays = [])
      (cols : 2 ≤ t.matrixCols ∧ t.matrixCols ≤ 4) (rows : 2 ≤ t.matrixRows ∧ t.matrixRows ≤ 4)
      (basic : t.basic.IsScalar) : Placeable p t
  | array {t : ShaderType} {size : ArraySize} {rest : List ArraySize}
      (arrays : t.arrays = size :: rest) (element : Placeable p t.elementType) : Placeable p t
  | struct {t : ShaderType} {id : StructId} {s : StructDecl} (arrays : t.arrays = [])
      (cols : t.matrixCols = 0) (isStruct : t.structId? = some id)
      (declared : p.struct? id = some s)
      (members : ∀ m ∈ s.members, p.hasMember m = true → Placeable p m.type)
      (asks : ∀ m ∈ s.members, p.hasMember m = true → m.AsksLittle) : Placeable p t

/-- A structure holds another one by value, possibly in an array. -/
def Holds (p : Program) (outer inner : StructId) : Prop :=
  ∃ s m, p.struct? outer = some s ∧ m ∈ s.members ∧ p.hasMember m = true ∧
    m.type.structId? = some inner

/-- The inner structure is a part of the outer one, at some depth. -/
def Within (p : Program) (inner outer : StructId) : Prop :=
  Relation.TransGen (fun inner outer => p.Holds outer inner) inner outer

theorem structId?_eq_none (h : t.basic.IsScalar) : t.structId? = none := by
  unfold ShaderType.structId?
  split <;> simp_all [BasicType.IsScalar]

namespace Placeable

theorem acc (h : Placeable p t) :
    ∀ id, t.structId? = some id → Acc (fun inner outer => p.Holds outer inner) id := by
  induction h with
  | vector _ _ _ basic | matrix _ _ _ basic => intro id hid; simp [structId?_eq_none basic] at hid
  | array _ _ ih => exact ih
  | struct _ _ isStruct declared _ _ ih =>
    intro id hid
    rw [isStruct, Option.some.injEq] at hid
    subst hid
    constructor
    rintro inner ⟨s', m, hs', hm, present, hinner⟩
    rw [declared, Option.some.injEq] at hs'
    subst hs'
    exact ih m hm present inner hinner

theorem not_within_self (h : Placeable p t) (hid : t.structId? = some id) {inner : StructId}
    (part : inner = id ∨ p.Within inner id) : ¬ p.Within inner inner := by
  have hacc : Acc p.Within inner := by
    rcases part with rfl | within
    · exact (h.acc inner hid).transGen
    · exact (h.acc id hid).transGen.inv within
  exact hacc.rec fun x _ ih self => ih x self self

end Placeable

/-! ## The shape at two depths -/

theorem shapeWithin_array {size : ArraySize} {rest : List ArraySize}
    (h : t.arrays = size :: rest) (depth : Nat) :
    p.shapeWithin depth t = .array (p.arrayLength size) (p.shapeWithin depth t.elementType) := by
  unfold shapeWithin
  simp only [h, ShaderType.elementType, foldr_cons, tail_cons]
  rfl

theorem shapeWithin_vector (h : t.arrays = []) (hc : t.matrixCols = 0)
    (hb : t.basic.IsScalar) (depth : Nat) :
    p.shapeWithin depth t = .vector t.scalarBytes t.componentCount := by
  unfold shapeWithin
  simp [h, ShaderType.matrix?, hc, structId?_eq_none hb]

theorem shapeWithin_matrix (h : t.arrays = []) (hc : 0 < t.matrixCols) (depth : Nat) :
    p.shapeWithin depth t = .matrix t.scalarBytes t.matrixCols t.matrixRows := by
  unfold shapeWithin
  simp [h, ShaderType.matrix?, hc]

theorem shapeWithin_struct (h : t.arrays = [])
    (hc : t.matrixCols = 0) (hid : t.structId? = some id) (hs : p.struct? id = some s)
    (depth : Nat) :
    p.shapeWithin (depth + 1) t = .struct (p.membersOf (p.shapeWithin depth) s.members) := by
  rw [shapeWithin]
  simp [h, ShaderType.matrix?, hc, hid, hs]

theorem membersOf_congr {f g : ShaderType → Shape} {members : List StructMember}
    (h : ∀ m ∈ members, p.hasMember m = true → f m.type = g m.type) :
    p.membersOf f members = p.membersOf g members := by
  induction members with
  | nil => rfl
  | cons m rest ih =>
    have hrest := ih fun m' hm' => h m' (mem_cons_of_mem m hm')
    simp only [membersOf, foldr_cons] at hrest ⊢
    by_cases present : p.hasMember m = true
    · simp only [present, ↓reduceIte, h m mem_cons_self present]
      rw [hrest]
    · simp only [present, Bool.false_eq_true, ↓reduceIte]
      rw [hrest]

theorem lt_of_struct? (h : p.struct? id = some s) : id < p.structs.length := by
  exact (List.getElem?_eq_some_iff.mp h).1

/-- The shape is the same at all depths that cover the structures not yet entered, if no part of the
type contains itself. `above` are the structures around the type, each of which holds what the type
is made of. -/
theorem shapeWithin_eq (t : ShaderType) (above : List StructId) (d e : Nat)
    (acyclic : ∀ id, t.structId? = some id → ∀ inner, inner = id ∨ p.Within inner id →
      ¬ p.Within inner inner) (nodup : above.Nodup) (bounded : ∀ a ∈ above, a < p.structs.length)
    (inside : ∀ a ∈ above, ∀ id, t.structId? = some id → p.Within id a)
    (hd : p.structs.length ≤ d + above.length) (he : p.structs.length ≤ e + above.length) :
    p.shapeWithin d t = p.shapeWithin e t := by
  induction d using Nat.strongRecOn generalizing t above e with
  | _ d ih =>
  rw [shapeWithin, shapeWithin]
  congr 1
  cases t.matrix? with
  | some => rfl
  | none =>
  cases isStruct : t.structId? with
  | none => rfl
  | some id =>
  cases declared : p.struct? id with
  | none => cases d <;> cases e <;> simp only [declared]
  | some s =>
    have outside : id ∉ above := fun hin =>
      acyclic id isStruct id (.inl rfl) (inside id hin id isStruct)
    have nodup' : (id :: above).Nodup := nodup_cons.mpr ⟨outside, nodup⟩
    have bounded' : ∀ a ∈ id :: above, a < p.structs.length := by
      intro a ha
      rcases mem_cons.mp ha with rfl | ha
      · exact lt_of_struct? declared
      · exact bounded a ha
    -- a chain without repetition is no longer than the list of structures
    have short : (id :: above).length ≤ p.structs.length := by
      have hsub : id :: above ⊆ range p.structs.length :=
        fun a ha => mem_range.mpr (bounded' a ha)
      simpa using (nodup'.subperm hsub).length_le
    rw [length_cons] at short
    obtain ⟨d, rfl⟩ := Nat.exists_eq_add_of_le' (show 1 ≤ d by omega)
    obtain ⟨e, rfl⟩ := Nat.exists_eq_add_of_le' (show 1 ≤ e by omega)
    simp only [declared]
    refine congrArg Shape.struct (membersOf_congr fun m hm present => ?_)
    have held : ∀ inner, m.type.structId? = some inner → p.Holds id inner :=
      fun inner hinner => ⟨s, m, declared, hm, present, hinner⟩
    refine ih d (Nat.lt_succ_self d) m.type (id :: above) e (fun inner hinner x part => ?_) nodup'
      bounded' (fun a ha inner hinner => ?_) ?_ ?_
    · refine acyclic id isStruct x (.inr ?_)
      rcases part with rfl | part
      · exact .single (held x hinner)
      · exact part.tail (held inner hinner)
    · rcases mem_cons.mp ha with rfl | ha
      · exact .single (held inner hinner)
      · exact .head (held inner hinner) (inside a ha id isStruct)
    · rw [length_cons]; omega
    · rw [length_cons]; omega

namespace Placeable

variable {t : ShaderType} {id : StructId} {s : StructDecl}

theorem shape_struct (h : Placeable p t) (arrays : t.arrays = []) (cols : t.matrixCols = 0)
    (isStruct : t.structId? = some id) (declared : p.struct? id = some s) :
    p.shape t = .struct (p.membersOf p.shape s.members) := by
  have hpos : 1 ≤ p.structs.length := Nat.zero_lt_of_lt (lt_of_struct? declared)
  obtain ⟨n, hn⟩ := Nat.exists_eq_add_of_le' hpos
  unfold shape
  rw [hn, shapeWithin_struct arrays cols isStruct declared]
  congr 1
  apply membersOf_congr
  intro m hm present
  cases h with
  | vector _ _ _ basic => simp [structId?_eq_none basic] at isStruct
  | matrix _ cols' => omega
  | array arrays' => simp [arrays] at arrays'
  | struct _ _ isStruct' declared' members =>
    obtain rfl : id = _ := by simpa [isStruct] using isStruct'
    obtain rfl : s = _ := by simpa [declared] using declared'
    refine shapeWithin_eq m.type [id] n (n + 1)
      (fun _ hid _ => (members m hm present).not_within_self hid) (by simp) (fun a ha => ?_) ?_ (by simp [hn]) (by simp [hn])
    · rw [mem_singleton.mp ha]
      exact lt_of_struct? declared
    · intro a ha inner hinner
      rw [mem_singleton.mp ha]
      exact .single ⟨s, m, declared, hm, present, hinner⟩

theorem footprint_struct (h : Placeable p t) (arrays : t.arrays = []) (cols : t.matrixCols = 0)
    (isStruct : t.structId? = some id) (declared : p.struct? id = some s) (k : Packing)
    (rowMajor : Bool) : p.footprint k t rowMajor = (p.structLayout k s rowMajor).whole := by
  unfold footprint structLayout Members.layout
  rw [h.shape_struct arrays cols isStruct declared]

end Placeable

end Program

end ShaderGen
