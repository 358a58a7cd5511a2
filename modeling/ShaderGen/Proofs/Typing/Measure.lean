import Mathlib.Algebra.Order.BigOperators.Group.Finset
import Mathlib.Tactic.Ring
import Mathlib.Tactic.Linarith
import ShaderGen.Codegen.Type
import ShaderGen.Proofs.Layout.Nesting

/-!
# What gets smaller while structures are typed

Typing a structure goes on to the structures that it holds by value, and jumps to those that its
references lead to. A jump needs a structure that has no pointer type for references yet and is not
underway. The first never comes back, but the second does: a structure counts as not underway as
soon as it has been typed by value, even inside of itself. So every structure has a weight that
exceeds the weights of all its parts together. Entering a structure takes its own weight out of the
weights of those that are not underway, and puts those of its parts back in at most
(`Program.freeWeight_jump`).

`Program.load` combines, from the greatest to the least: how many structures have no pointer type
yet, the weights of those that may be entered by a jump, and how many parts the structure has.
-/

namespace ShaderGen

open Finset

variable {s t : State} {inner outer : StructId}

/-- The structure has a pointer type for references to it. -/
def State.Refers (s : State) (id : StructId) : Prop := (s.references.lookup id).isSome

namespace Program

open scoped Classical

variable {p : Program} {id : StructId}

/-- No structure contains itself by value. -/
def Acyclic (p : Program) : Prop := ∀ id, ¬ p.Within id id

/-- The structures that are parts of the given one. -/
noncomputable def parts (p : Program) (id : StructId) : Finset StructId :=
  (range p.structs.length).filter fun inner => p.Within inner id

/-- A number that exceeds those of structures, of parts, and of the digits of a load. -/
def base (p : Program) : Nat := p.structs.length + 1

theorem mem_parts : inner ∈ p.parts outer ↔ inner < p.structs.length ∧ p.Within inner outer := by
  simp [parts]

theorem card_parts_lt_base (p : Program) (id : StructId) : (p.parts id).card < p.base := by
  have bounded : (p.parts id).card ≤ (range p.structs.length).card :=
    card_le_card (filter_subset _ _)
  rw [card_range] at bounded
  exact Nat.lt_succ_of_le bounded

theorem card_parts_lt (acyclic : p.Acyclic) (declared : inner < p.structs.length)
    (h : p.Within inner outer) : (p.parts inner).card < (p.parts outer).card := by
  have subset : p.parts inner ⊆ p.parts outer := fun x hx =>
    mem_parts.2 ⟨(mem_parts.1 hx).1, (mem_parts.1 hx).2.trans h⟩
  refine card_lt_card ((ssubset_iff_of_subset subset).2 ?_)
  exact ⟨inner, mem_parts.2 ⟨declared, h⟩, fun self => acyclic inner (mem_parts.1 self).2⟩

/-! ## Weights -/

/-- A weight for each structure. -/
noncomputable def weight (p : Program) (id : StructId) : Nat := p.base ^ (p.parts id).card

theorem sum_weight_parts_lt (acyclic : p.Acyclic) (id : StructId) :
    ∑ x ∈ p.parts id, p.weight x < p.weight id := by
  rcases Nat.eq_zero_or_pos (p.parts id).card with none | some
  · rw [card_eq_zero.1 none, sum_empty]
    exact Nat.pow_pos (Nat.succ_pos _)
  · have each : ∀ x ∈ p.parts id, p.weight x ≤ p.base ^ ((p.parts id).card - 1) := by
      intro x hx
      have fewer := card_parts_lt acyclic (mem_parts.1 hx).1 (mem_parts.1 hx).2
      exact Nat.pow_le_pow_right (Nat.succ_pos _) (by omega)
    have total := sum_le_card_nsmul _ _ _ each
    refine Nat.lt_of_le_of_lt total ?_
    have power : p.weight id = p.base * p.base ^ ((p.parts id).card - 1) := by
      obtain ⟨k, hk⟩ := Nat.exists_eq_add_of_le' some
      rw [weight, hk, Nat.add_sub_cancel, Nat.pow_succ']
    rw [power]
    exact Nat.mul_lt_mul_of_pos_right (card_parts_lt_base p id) (Nat.pow_pos (Nat.succ_pos _))

theorem sum_weight_lt (p : Program) (ids : Finset StructId)
    (declared : ids ⊆ range p.structs.length) : ∑ x ∈ ids, p.weight x < p.base ^ p.base := by
  have each : ∀ x ∈ ids, p.weight x ≤ p.base ^ p.structs.length := fun x _ =>
    Nat.pow_le_pow_right (Nat.succ_pos _) (Nat.le_of_lt_succ (card_parts_lt_base p x))
  have total := sum_le_card_nsmul _ _ _ each
  have few : ids.card < p.base := by
    have bounded := card_le_card declared
    rw [card_range] at bounded
    exact Nat.lt_succ_of_le bounded
  refine Nat.lt_of_le_of_lt total ?_
  rw [base, Nat.pow_succ', ← base]
  exact Nat.mul_lt_mul_of_pos_right few (Nat.pow_pos (Nat.succ_pos _))

/-! ## The load of a state -/

/-- The structures without a pointer type for references. -/
noncomputable def unreferred (p : Program) (s : State) : Finset StructId :=
  (range p.structs.length).filter fun id => ¬ s.Refers id

/-- While the members of a structure are typed, the structures that a jump may enter: those that are
not underway, and the parts of the structure, since they may be taken off. -/
noncomputable def free (p : Program) (s : State) (id : StructId) : Finset StructId :=
  (range p.structs.length).filter fun x => (x ∉ s.underway ∧ x ≠ id) ∨ p.Within x id

noncomputable def freeWeight (p : Program) (s : State) (id : StructId) : Nat :=
  ∑ x ∈ p.free s id, p.weight x

/-- What is left to do for a structure that is to be typed. -/
noncomputable def load (p : Program) (s : State) (id : StructId) : Nat :=
  ((p.unreferred s).card * p.base ^ p.base + p.freeWeight s id) * p.base + (p.parts id).card

theorem load_congr (references : t.references = s.references)
    (underway : t.underway = s.underway) : p.load t id = p.load s id := by
  have referred : ∀ x, t.Refers x ↔ s.Refers x := fun x => by
    rw [State.Refers, State.Refers, references]
  simp only [load, unreferred, freeWeight, free, referred, underway]

theorem mem_free {x : StructId} : x ∈ p.free s id ↔
    x < p.structs.length ∧ ((x ∉ s.underway ∧ x ≠ id) ∨ p.Within x id) := by
  simp [free]

theorem freeWeight_lt (p : Program) (s : State) (id : StructId) :
    p.freeWeight s id < p.base ^ p.base :=
  p.sum_weight_lt _ (filter_subset _ _)

theorem freeWeight_part (h : p.Within inner outer)
    (kept : ∀ x ∈ outer :: s.underway, ¬ p.Within x outer → x ∈ t.underway) :
    p.freeWeight t inner ≤ p.freeWeight s outer := by
  refine sum_le_sum_of_subset fun x hx => ?_
  obtain ⟨declared, hx⟩ := mem_free.1 hx
  refine mem_free.2 ⟨declared, ?_⟩
  rcases hx with ⟨away, -⟩ | inside
  · by_cases part : p.Within x outer
    · exact .inr part
    · refine .inl ⟨fun back => ?_, fun same => ?_⟩
      · exact away (kept x (List.mem_cons_of_mem _ back) part)
      · exact away (kept x (same ▸ List.mem_cons_self) part)
  · exact .inr (inside.trans h)

theorem freeWeight_jump (acyclic : p.Acyclic) {target : StructId}
    (declared : target < p.structs.length) (away : target ∉ t.underway)
    (kept : ∀ x ∈ outer :: s.underway, ¬ p.Within x outer → x ∈ t.underway) :
    p.freeWeight t target < p.freeWeight s outer := by
  have enters : ∀ x, x < p.structs.length → x ∉ t.underway → x ∈ p.free s outer := by
    intro x bound gone
    refine mem_free.2 ⟨bound, ?_⟩
    by_cases part : p.Within x outer
    · exact .inr part
    · refine .inl ⟨fun back => ?_, fun same => ?_⟩
      · exact gone (kept x (List.mem_cons_of_mem _ back) part)
      · exact gone (kept x (same ▸ List.mem_cons_self) part)
  have mem := enters target declared away
  have covers : p.free t target ⊆ (p.free s outer).erase target ∪ p.parts target := by
    intro x hx
    obtain ⟨bound, hx⟩ := mem_free.1 hx
    rcases hx with ⟨gone, other⟩ | inside
    · exact mem_union_left _ (mem_erase.2 ⟨other, enters x bound gone⟩)
    · exact mem_union_right _ (mem_parts.2 ⟨bound, inside⟩)
  calc p.freeWeight t target
      ≤ ∑ x ∈ (p.free s outer).erase target ∪ p.parts target, p.weight x :=
        sum_le_sum_of_subset covers
    _ ≤ ∑ x ∈ (p.free s outer).erase target, p.weight x + ∑ x ∈ p.parts target, p.weight x :=
        sum_union_inter (f := p.weight) ▸ Nat.le_add_right _ _
    _ < ∑ x ∈ (p.free s outer).erase target, p.weight x + p.weight target :=
        Nat.add_lt_add_left (sum_weight_parts_lt acyclic target) _
    _ = p.freeWeight s outer := sum_erase_add _ _ mem

theorem digit_lt {x y u v k : Nat} (digit : u < k) (h : x < y) : x * k + u < y * k + v := by
  have scaled := Nat.mul_le_mul_right k h
  rw [Nat.succ_mul] at scaled
  omega

theorem load_lt_of_unreferred (fewer : (p.unreferred t).card < (p.unreferred s).card)
    (inner outer : StructId) : p.load t inner < p.load s outer :=
  digit_lt (p.card_parts_lt_base inner) (digit_lt (p.freeWeight_lt t inner) fewer)

theorem load_lt_of_freeWeight (same : (p.unreferred t).card ≤ (p.unreferred s).card)
    (fewer : p.freeWeight t inner < p.freeWeight s outer) : p.load t inner < p.load s outer := by
  refine digit_lt (p.card_parts_lt_base inner) ?_
  exact Nat.add_lt_add_of_le_of_lt (Nat.mul_le_mul_right _ same) fewer

theorem load_lt_of_parts (same : (p.unreferred t).card ≤ (p.unreferred s).card)
    (noMore : p.freeWeight t inner ≤ p.freeWeight s outer)
    (fewer : (p.parts inner).card < (p.parts outer).card) : p.load t inner < p.load s outer := by
  refine Nat.add_lt_add_of_le_of_lt (Nat.mul_le_mul_right _ ?_) fewer
  exact Nat.add_le_add (Nat.mul_le_mul_right _ same) noMore

/-- The depth to which types are followed is enough for every load. -/
theorem load_lt_typeDepth (p : Program) (s : State) (id : StructId) :
    p.load s id + 3 ≤ p.typeDepth := by
  have few : (p.unreferred s).card < p.base := by
    have bounded := card_le_card (filter_subset (fun id => ¬ s.Refers id) (range p.structs.length))
    rw [card_range] at bounded
    exact Nat.lt_succ_of_le bounded
  have below : p.load s id < p.base * p.base ^ p.base * p.base + 0 :=
    digit_lt (p.card_parts_lt_base id) (digit_lt (v := 0) (p.freeWeight_lt s id) few)
  have power : p.typeDepth = p.base * p.base ^ p.base * p.base + 2 := by
    change p.base ^ (p.base + 2) + 2 = _
    ring
  omega

end Program

end ShaderGen
