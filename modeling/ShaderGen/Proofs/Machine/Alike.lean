import Mathlib.Algebra.Group.Nat.Defs
import Mathlib.Data.List.Forall2
import Mathlib.Data.List.ProdSigma
import Mathlib.Logic.Relation
import ShaderGen.Proofs.Machine.Datum
import ShaderGen.Proofs.Typing.Making

/-!
# Types that are alike

One type of the source has several types in the module, which differ in their layout and in how
truth values are represented. `Builder.Alike` says that two types of the module are made in the same
way, from the same scalars but for truth values that are numbers in one of them. `Builder.Inhabits`
says which data are values of a type, and `Datum.Stands` that two data stand for the same value.

Two types that are alike are followed in step no deeper than there are pairs of types
(`Alike.within_nesting`): a pair that came again inside itself would have to be followed forever.
-/

namespace ShaderGen

open List

variable {id type : Ident} {types : List Ident} {k : Nat}

/-! ## Data that stand for the same value -/

/-- Two data stand for the same value: a number stands for the truth value that is true exactly when
the number is not zero, and a truth value is represented by one or zero. -/
inductive Datum.Stands : Datum → Datum → Prop
  | same (x : Datum) : Stands x x
  | truth (t : Bool) : Stands (.truth t) (.number t.toNat)
  | number (n : Nat) : Stands (.number n) (.truth (n != 0))
  | composite {xs ys : List Datum} (length : xs.length = ys.length)
      (parts : ∀ (k : Nat) (x y : Datum), xs[k]? = some x → ys[k]? = some y → Stands x y) :
      Stands (.composite xs) (.composite ys)

theorem Datum.Stands.parts {xs ys : List Datum} (h : (Datum.composite xs).Stands (.composite ys)) :
    xs.length = ys.length ∧ ∀ (k : Nat) (x y : Datum), xs[k]? = some x → ys[k]? = some y →
    x.Stands y := by
  cases h with
  | same =>
    refine ⟨rfl, fun k x y hx hy => ?_⟩
    cases hx.symm.trans hy
    exact .same x
  | composite length parts => exact ⟨length, parts⟩

/-- The components of a vector; a scalar is its only one. -/
def Datum.components : Datum → List Datum
  | composite xs => xs
  | x => [x]

/-- The components of the two data are related one by one. -/
def Datum.Pointwise (R : Datum → Datum → Prop) (x y : Datum) : Prop :=
  Forall₂ R x.components y.components

theorem Datum.Stands.of_forall₂ {xs ys : List Datum} (h : Forall₂ Stands xs ys) :
    (Datum.composite xs).Stands (.composite ys) := by
  refine .composite h.length_eq fun k x y hx hy => ?_
  obtain ⟨inside, rfl⟩ := List.getElem?_eq_some_iff.1 hx
  obtain ⟨inside', rfl⟩ := List.getElem?_eq_some_iff.1 hy
  exact h.get inside inside'

theorem exists_getElem?_of_length_eq {α β : Type} {xs : List α} {ys : List β}
    (length : xs.length = ys.length) {y : β} (h : ys[k]? = some y) : ∃ x, xs[k]? = some x := by
  have bound := (List.getElem?_eq_some_iff.1 h).1
  rw [← length] at bound
  exact ⟨xs[k], getElem?_eq_getElem bound⟩

/-- Lists of the same length that agree wherever both have an element are equal. -/
theorem eq_of_getElem?_agree {α : Type} {xs ys : List α} (length : xs.length = ys.length)
    (agree : ∀ (k : Nat) (x y : α), xs[k]? = some x → ys[k]? = some y → x = y) : xs = ys := by
  refine ext_getElem length fun k hx hy => ?_
  exact agree k _ _ (getElem?_eq_getElem hx) (getElem?_eq_getElem hy)

/-- Truth values are stored as numbers. -/
def TypeForm.Stores (f g : TypeForm) : Prop :=
  f = .bool ∧ ∃ width signed, g = .int width signed ∧ 0 < width

/-- One of the two is for truth values, and the other one for the numbers that represent them. -/
def TypeForm.Differs (f g : TypeForm) : Prop := f.Stores g ∨ g.Stores f

namespace Builder

variable {b b' : Builder} {x : Datum}

/-! ## Values of types -/

/-- The constant is a literal of one word. -/
structure HasLiteral (b : Builder) (id : Ident) (n : Nat) : Prop where
  literal : b.literal? id = some n
  range : n < wordCount

/-- The types of the parts of a composite. -/
inductive Contains (b : Builder) (type : Ident) : List Ident → Prop
  | vector {component : Ident} {count : Nat}
      (form : b.form? type = some (.vector component count)) :
      Contains b type (replicate count component)
  | matrix {column : Ident} {count : Nat} (form : b.form? type = some (.matrix column count)) :
      Contains b type (replicate count column)
  | array {element length : Ident} {stride : Option Nat} {n : Nat}
      (form : b.form? type = some (.array element length stride))
      (literal : b.HasLiteral length n) : Contains b type (replicate n element)
  | struct {members : List Ident} (form : b.form? type = some (.struct members)) :
      Contains b type members

/-- The datum is a value of the type. -/
inductive Inhabits (b : Builder) : Ident → Datum → Prop
  | truth {type : Ident} {t : Bool} (form : b.form? type = some .bool) : Inhabits b type (.truth t)
  | int {type : Ident} {width bits : Nat} {signed : Bool}
      (form : b.form? type = some (.int width signed)) (range : bits < 2 ^ width) :
      Inhabits b type (.number bits)
  | float {type : Ident} {width bits : Nat} (form : b.form? type = some (.float width))
      (range : bits < 2 ^ width) : Inhabits b type (.number bits)
  | pointer {type object : Ident} {storage : StorageClass} {pointee : Option Ident}
      {path : List Nat} (form : b.form? type = some (.pointer storage pointee)) :
      Inhabits b type (.pointer object path)
  | composite {type : Ident} {types : List Ident} {parts : List Datum}
      (contains : b.Contains type types) (length : parts.length = types.length)
      (inner : ∀ (k : Nat) (part : Ident) (x : Datum), types[k]? = some part → parts[k]? = some x →
        Inhabits b part x) : Inhabits b type (.composite parts)

theorem HasLiteral.later {n : Nat} (h : b.HasLiteral id n) (later : b.Later b') :
    b'.HasLiteral id n := ⟨later.literals id n h.literal, h.range⟩

theorem Contains.later (h : b.Contains type types)
    (later : b.Later b') : b'.Contains type types := by
  cases h with
  | vector form => exact .vector (later.form form rfl)
  | matrix form => exact .matrix (later.form form rfl)
  | array form literal => exact .array (later.form form rfl) (literal.later later)
  | struct form => exact .struct (later.form form rfl)

theorem Contains.unique {types' : List Ident} (h : b.Contains type types)
    (g : b.Contains type types') : types = types' := by
  cases h with
  | vector form | matrix form | struct form =>
    cases g with
    | vector form' | matrix form' | array form' | struct form' =>
        cases form.symm.trans form' <;> rfl
  | array form literal =>
    cases g with
    | vector form' | matrix form' | struct form' => cases form.symm.trans form'
    | array form' literal' =>
      cases form.symm.trans form'
      cases literal.literal.symm.trans literal'.literal
      rfl

theorem Inhabits.later (h : b.Inhabits type x) (later : b.Later b') : b'.Inhabits type x := by
  induction h with
  | truth form => exact .truth (later.form form rfl)
  | int form range => exact .int (later.form form rfl) range
  | float form range => exact .float (later.form form rfl) range
  | pointer form =>
    rcases later.forms _ _ form with same | ⟨_, _, -, completed⟩
    · exact .pointer same
    · exact .pointer completed
  | composite contains length _ ih => exact .composite (contains.later later) length ih

theorem Inhabits.parts (h : b.Inhabits type x)
    (contains : b.Contains type types) : ∃ parts, x = .composite parts ∧
      parts.length = types.length ∧ ∀ (k : Nat) (part : Ident) (y : Datum), types[k]? = some part →
        parts[k]? = some y → b.Inhabits part y := by
  cases h with
  | composite contains' length inner =>
    obtain rfl := contains.unique contains'
    exact ⟨_, rfl, length, inner⟩
  | truth form | int form | float form | pointer form =>
    cases contains with
    | vector form' | matrix form' | array form' | struct form' => cases form.symm.trans form'

theorem Inhabits.of_bool (h : b.Inhabits type x)
    (form : b.form? type = some .bool) : ∃ t, x = .truth t := by
  cases h with
  | truth => exact ⟨_, rfl⟩
  | int form' | float form' | pointer form' => cases form.symm.trans form'
  | composite contains =>
    cases contains with
    | vector form' | matrix form' | array form' | struct form' => cases form.symm.trans form'

theorem Inhabits.of_int {width : Nat} {signed : Bool}
    (h : b.Inhabits type x) (form : b.form? type = some (.int width signed)) :
    ∃ bits, x = .number bits ∧ bits < 2 ^ width := by
  cases h with
  | int form' range =>
    cases form.symm.trans form'
    exact ⟨_, rfl, range⟩
  | truth form' | float form' | pointer form' => cases form.symm.trans form'
  | composite contains =>
    cases contains with
    | vector form' | matrix form' | array form' | struct form' => cases form.symm.trans form'

theorem Inhabits.eq_of_stands {y : Datum} (hx : b.Inhabits type x)
    (hy : b.Inhabits type y) (h : x.Stands y) : x = y := by
  induction h generalizing type with
  | same x => rfl
  | truth t =>
    cases hx with
    | truth form =>
      cases hy with
      | int form' | float form' => cases form.symm.trans form'
  | number n =>
    cases hy with
    | truth form =>
      cases hx with
      | int form' | float form' => cases form.symm.trans form'
  | composite length _ ih =>
    cases hx with
    | composite contains size inner =>
      obtain ⟨_, same, size', inner'⟩ := hy.parts contains
      obtain rfl := Datum.composite.inj same
      refine congrArg Datum.composite (eq_of_getElem?_agree length fun k x y hx hy => ?_)
      obtain ⟨part, found⟩ := exists_getElem?_of_length_eq size.symm hx
      exact ih k x y hx hy (inner k part x found hx) (inner' k part y found hy)

/-! ## Two types in step -/

/-- The types are made in the same way, down to scalars that are the same, or of which one is for
truth values and the other one for numbers, as far as this is allowed. They are followed to the
given depth. -/
inductive Alike (b : Builder) (allowed : TypeForm → TypeForm → Prop) : Nat → Ident → Ident → Prop
  | same {depth : Nat} {type : Ident} : Alike b allowed (depth + 1) type type
  | scalar {depth : Nat} {source target : Ident} {f g : TypeForm} (form : b.form? source = some f)
      (form' : b.form? target = some g) (differs : f.Differs g) (may : allowed f g) :
      Alike b allowed (depth + 1) source target
  | vector {depth count : Nat} {source target x y : Ident} {f g : TypeForm}
      (form : b.form? source = some (.vector x count))
      (form' : b.form? target = some (.vector y count))
      (part : b.form? x = some f) (part' : b.form? y = some g) (differs : f.Differs g)
      (may : allowed f g) : Alike b allowed (depth + 2) source target
  | array {depth n : Nat} {source target x y length length' : Ident} {stride stride' : Option Nat}
      (form : b.form? source = some (.array x length stride))
      (form' : b.form? target = some (.array y length' stride'))
      (literal : b.HasLiteral length n) (literal' : b.HasLiteral length' n)
      (elements : Alike b allowed depth x y) : Alike b allowed (depth + 1) source target
  | struct {depth : Nat} {source target : Ident} {xs ys : List Ident}
      (form : b.form? source = some (.struct xs)) (form' : b.form? target = some (.struct ys))
      (length : xs.length = ys.length) (members : ∀ (k : Nat) (x y : Ident), xs[k]? = some x →
        ys[k]? = some y → Alike b allowed depth x y) : Alike b allowed (depth + 1) source target

/-- Nothing is known to differ but the layout. -/
abbrev Matches (b : Builder) (source target : Ident) : Prop :=
  ∃ depth, b.Alike (fun _ _ => False) depth source target

namespace Alike

variable {allowed allowed' : TypeForm → TypeForm → Prop} {depth : Nat} {source target : Ident}

theorem later (h : b.Alike allowed depth source target) (later : b.Later b') :
    b'.Alike allowed depth source target := by
  have scalar : ∀ {id f g}, b.form? id = some f → f.Differs g ∨ g.Differs f →
    b'.form? id = some f := by
    rintro id f g form ((⟨rfl, -⟩ | ⟨-, _, _, rfl, -⟩) | (⟨-, _, _, rfl, -⟩ | ⟨rfl, -⟩)) <;>
      exact later.form form rfl
  induction h with
  | same => exact .same
  | scalar form form' differs may =>
    exact .scalar (scalar form (.inl differs)) (scalar form' (.inr differs)) differs may
  | vector form form' part part' differs may =>
    exact .vector (later.form form rfl) (later.form form' rfl) (scalar part (.inl differs))
      (scalar part' (.inr differs)) differs may
  | array form form' literal literal' _ ih =>
    exact .array (later.form form rfl) (later.form form' rfl) (literal.later later)
      (literal'.later later) ih
  | struct form form' length _ ih =>
    exact .struct (later.form form rfl) (later.form form' rfl) length ih

theorem weaken (h : b.Alike allowed depth source target) (imp : ∀ f g, allowed f g → allowed' f g) :
    b.Alike allowed' depth source target := by
  induction h with
  | same => exact .same
  | scalar form form' differs may => exact .scalar form form' differs (imp _ _ may)
  | vector form form' part part' differs may =>
    exact .vector form form' part part' differs (imp _ _ may)
  | array form form' literal literal' _ ih => exact .array form form' literal literal' ih
  | struct form form' length _ ih => exact .struct form form' length ih

theorem symm (h : b.Alike allowed depth source target) :
    b.Alike (fun f g => allowed g f) depth target source := by
  induction h with
  | same => exact .same
  | scalar form form' differs may => exact .scalar form' form differs.symm may
  | vector form form' part part' differs may =>
    exact .vector form' form part' part differs.symm may
  | array form form' literal literal' _ ih => exact .array form' form literal' literal ih
  | struct form form' length _ ih =>
    exact .struct form' form length.symm fun k x y hx hy => ih k y x hy hx

/-- Types that are alike are the same, or they are scalars that differ, or they are composites with
parts that are alike. -/
theorem parts (h : b.Alike allowed (depth + 1) source target) : source = target ∨
    (∃ f g, b.form? source = some f ∧ b.form? target = some g ∧ f.Differs g ∧ allowed f g) ∨
    ∃ xs ys, b.Contains source xs ∧ b.Contains target ys ∧ xs.length = ys.length ∧
      ∀ (k : Nat) (x y : Ident), xs[k]? = some x → ys[k]? = some y → b.Alike allowed depth x y := by
  cases h with
  | same => exact .inl rfl
  | scalar form form' differs may => exact .inr (.inl ⟨_, _, form, form', differs, may⟩)
  | vector form form' part part' differs may =>
    refine .inr (.inr ⟨_, _, .vector form, .vector form', by simp, fun k x y hx hy => ?_⟩)
    obtain rfl := eq_of_mem_replicate (mem_of_getElem? hx)
    obtain rfl := eq_of_mem_replicate (mem_of_getElem? hy)
    exact .scalar part part' differs may
  | array form form' literal literal' elements =>
    refine .inr
      (.inr ⟨_, _, .array form literal, .array form' literal', by simp, fun k x y hx hy => ?_⟩)
    obtain rfl := eq_of_mem_replicate (mem_of_getElem? hx)
    obtain rfl := eq_of_mem_replicate (mem_of_getElem? hy)
    exact elements
  | struct form form' length members =>
    exact .inr (.inr ⟨_, _, .struct form, .struct form', length, members⟩)

end Alike

/-! ## Depth -/

section Depth

variable {α : Type} {r : α → α → Prop}

/-- No chain that ends in the element is as long as the bound. -/
def Bounded (r : α → α → Prop) : Nat → α → Prop
  | 0, _ => False
  | depth + 1, a => ∀ x, r x a → Bounded r depth x

theorem not_rel_self_of_acc {a : α} (h : Acc r a) : ¬ r a a := by
  induction h with
  | intro a _ ih => exact fun loop => ih a loop loop

theorem bounded_of_acc [DecidableEq α] {a : α} (h : Acc r a) (list : List α)
    (listed : ∀ x y, Relation.ReflTransGen r y a → r x y → y ∈ list) :
    Bounded r (list.length + 1) a := by
  induction h generalizing list with
  | intro a acc ih =>
    intro x below
    have mem : a ∈ list := listed x a .refl below
    have shorter : (list.erase a).length + 1 = list.length := by
      rw [length_erase_of_mem mem, Nat.sub_add_cancel (length_pos_of_mem mem)]
    rw [← shorter]
    refine ih x below (list.erase a) fun z y reaches inner => ?_
    have other : y ≠ a := by
      rintro rfl
      exact not_rel_self_of_acc (Acc.transGen ⟨y, acc⟩) (.tail' reaches below)
    rw [mem_erase_of_ne other]
    exact listed z y (reaches.tail below) inner

end Depth

/-- The first pair of types is met inside the second one, when both are followed in step. -/
def Inside (b : Builder) (q q' : Ident × Ident) : Prop :=
  q'.1 ≠ q'.2 ∧ ∃ k, b.contained? q'.1 k = some q.1 ∧ b.contained? q'.2 k = some q.2

theorem contained?_of_differs {f g : TypeForm} (form : b.form? id = some f)
    (differs : f.Differs g ∨ g.Differs f) (k : Nat) : b.contained? id k = none := by
  unfold contained?
  rcases differs with (⟨rfl, -⟩ | ⟨-, _, _, rfl, -⟩) | (⟨-, _, _, rfl, -⟩ | ⟨rfl, -⟩) <;> rw [form]

theorem mem_types_of_contained? {x : Ident} (h : b.contained? id k = some x) :
    id ∈ b.types.map Prod.fst := by
  unfold contained? at h
  have known : ∃ f, b.form? id = some f := by
    cases form : b.form? id with
    | none => rw [form] at h; cases h
    | some f => exact ⟨f, rfl⟩
  obtain ⟨f, form⟩ := known
  obtain ⟨before, after, split, -⟩ := lookup_eq_some_iff.1 form
  simp [split]

namespace Alike

variable {allowed : TypeForm → TypeForm → Prop} {depth : Nat} {source target : Ident}

theorem acc (h : b.Alike allowed depth source target) : Acc b.Inside (source, target) := by
  have scalars : ∀ {x y f g}, b.form? x = some f → f.Differs g → Acc b.Inside (x, y) := by
    intro x y f g form differs
    refine ⟨_, fun q ⟨_, k, inner, _⟩ => ?_⟩
    rw [contained?_of_differs form (.inl differs)] at inner
    cases inner
  induction h with
  | same => exact ⟨_, fun q ⟨other, _⟩ => absurd rfl other⟩
  | scalar form form' differs may => exact scalars form differs
  | vector form form' part part' differs may =>
    refine ⟨_, fun ⟨x, y⟩ ⟨_, k, inner, inner'⟩ => ?_⟩
    simp only [contained?, form, Option.some.injEq] at inner
    subst inner
    exact scalars part differs
  | array form form' literal literal' _ ih =>
    refine ⟨_, fun ⟨x, y⟩ ⟨_, k, inner, inner'⟩ => ?_⟩
    simp only [contained?, form, form', Option.some.injEq] at inner inner'
    subst inner inner'
    exact ih
  | struct form form' length _ ih =>
    refine ⟨_, fun ⟨x, y⟩ ⟨_, k, inner, inner'⟩ => ?_⟩
    simp only [contained?, form, form'] at inner inner'
    exact ih k x y inner inner'

theorem of_bounded {bound : Nat} (bounded : Bounded b.Inside bound (source, target))
    (h : b.Alike allowed depth source target) : b.Alike allowed bound source target := by
  induction bound generalizing source target depth with
  | zero => exact absurd bounded id
  | succ bound ih =>
    by_cases equal : source = target
    · subst equal
      exact .same
    have inside : ∀ {x y : Ident} (k : Nat), b.contained? source k = some x →
        b.contained? target k = some y → Bounded b.Inside bound (x, y) :=
      fun k inner inner' => bounded _ ⟨equal, k, inner, inner'⟩
    cases h with
    | same => exact absurd rfl equal
    | scalar form form' differs may => exact .scalar form form' differs may
    | @vector _ _ _ _ x y _ _ form form' part part' differs may =>
      have deeper : Bounded b.Inside bound (x, y) :=
        inside 0 (by simp [contained?, form]) (by simp [contained?, form'])
      cases bound with
      | zero => exact absurd deeper id
      | succ bound => exact .vector form form' part part' differs may
    | array form form' literal literal' elements =>
      refine .array form form' literal literal' (ih (inside 0 ?_ ?_) elements)
      · simp [contained?, form]
      · simp [contained?, form']
    | struct form form' length members =>
      refine .struct form form' length fun k x y hx hy => ih (inside k ?_ ?_) (members k x y hx hy)
      · simp [contained?, form, hx]
      · simp [contained?, form', hy]

theorem within_nesting (h : b.Alike allowed depth source target) :
    b.Alike allowed b.nesting source target := by
  let ids := b.types.map Prod.fst
  have listed : ∀ q q' : Ident × Ident, b.Inside q q' → q' ∈ ids ×ˢ ids := by
    rintro q ⟨x, y⟩ ⟨-, k, inner, inner'⟩
    exact pair_mem_product.2 ⟨mem_types_of_contained? inner, mem_types_of_contained? inner'⟩
  have bounded := bounded_of_acc h.acc (ids ×ˢ ids) fun q q' _ inside => listed q q' inside
  have size : (ids ×ˢ ids).length + 1 = b.nesting := by
    rw [length_product, length_map, nesting]
  exact h.of_bounded (size ▸ bounded)

end Alike

/-! ## Differences -/

theorem disagreeOnTruthWithin_of_differs {x y : Ident} {f g : TypeForm} (form : b.form? x = some f)
    (form' : b.form? y = some g) (differs : f.Differs g) (depth : Nat) :
    b.disagreeOnTruthWithin (depth + 1) x y = true := by
  rcases differs with ⟨rfl, _, _, rfl, -⟩ | ⟨rfl, _, _, rfl, -⟩
  all_goals
    have other : x ≠ y := by
      rintro rfl
      cases form.symm.trans form'
    simp [disagreeOnTruthWithin, other, form, form']

namespace Alike

variable {allowed : TypeForm → TypeForm → Prop} {depth : Nat} {source target : Ident}

/-- Types that are alike and do not disagree on truth differ in their layout only. -/
theorem of_agree (h : b.Alike allowed depth source target) {fuel : Nat} (le : depth ≤ fuel)
    (agree : b.disagreeOnTruthWithin fuel source target = false) :
    b.Alike (fun _ _ => False) depth source target := by
  induction h generalizing fuel with
  | same => exact .same
  | scalar form form' differs may =>
    obtain ⟨d, rfl⟩ := Nat.exists_eq_add_of_le' le
    cases agree.symm.trans (disagreeOnTruthWithin_of_differs form form' differs _)
  | @vector _ _ source target _ _ _ _ form form' part part' differs may =>
    obtain ⟨d, rfl⟩ := Nat.exists_eq_add_of_le' le
    by_cases equal : source = target
    · subst equal
      exact .same
    · rw [← Nat.add_assoc] at agree
      simp only [disagreeOnTruthWithin, equal, if_false, form, form'] at agree
      cases agree.symm.trans (disagreeOnTruthWithin_of_differs part part' differs _)
  | @array _ _ source target _ _ _ _ _ _ form form' literal literal' _ ih =>
    obtain ⟨d, rfl⟩ := Nat.exists_eq_add_of_le' le
    by_cases equal : source = target
    · subst equal
      exact .same
    · refine .array form form' literal literal' (ih (Nat.le_add_left _ d) ?_)
      rw [← Nat.add_assoc] at agree
      simpa only [disagreeOnTruthWithin, equal, if_false, form, form'] using agree
  | @struct _ source target _ _ form form' length _ ih =>
    obtain ⟨d, rfl⟩ := Nat.exists_eq_add_of_le' le
    by_cases equal : source = target
    · subst equal
      exact .same
    · refine .struct form form' length fun k x y hx hy => ih k x y hx hy (Nat.le_add_left _ d) ?_
      rw [← Nat.add_assoc] at agree
      simp only [disagreeOnTruthWithin, equal, if_false, form, form', any_eq_false,
        Bool.not_eq_true] at agree
      exact agree (x, y) (mem_of_getElem? (getElem?_zip_eq_some.2 ⟨hx, hy⟩))

end Alike

namespace Alike

variable {depth : Nat} {source target : Ident} {x y z : Datum}

/-- Where only the layout differs, the values are the same. -/
theorem inhabits (h : b.Alike (fun _ _ => False) depth source target)
    (value : b.Inhabits source x) : b.Inhabits target x := by
  induction depth generalizing source target x with
  | zero => cases h
  | succ depth ih =>
    rcases h.parts with rfl | ⟨_, _, _, _, _, never⟩ | ⟨xs, ys, contains, contains', length, inner⟩
    · exact value
    · exact absurd never id
    · obtain ⟨parts, rfl, size, values⟩ := value.parts contains
      refine .composite contains' (size.trans length) fun k part y hpart hy => ?_
      obtain ⟨old, found⟩ := exists_getElem?_of_length_eq length hpart
      exact ih (inner k old part found hpart) (values k old y found hy)

theorem back (h : b.Alike TypeForm.Stores depth source target) (hx : b.Inhabits source x)
    (hy : b.Inhabits target y) (hz : b.Inhabits source z) (there : x.Stands y)
    (again : y.Stands z) : z = x := by
  induction depth generalizing source target x y z with
  | zero => cases h
  | succ depth ih =>
    rcases h.parts with rfl | ⟨_, _, form, form', _, rfl, _, _, rfl, -⟩ |
      ⟨xs, ys, contains, contains', length, inner⟩
    · obtain rfl := hx.eq_of_stands hy there
      exact (hx.eq_of_stands hz again).symm
    · obtain ⟨t, rfl⟩ := hx.of_bool form
      obtain ⟨n, rfl, -⟩ := hy.of_int form'
      obtain ⟨t', rfl⟩ := hz.of_bool form
      cases there
      cases again
      cases t <;> rfl
    · obtain ⟨xparts, rfl, xsize, xvalues⟩ := hx.parts contains
      obtain ⟨yparts, rfl, ysize, yvalues⟩ := hy.parts contains'
      obtain ⟨zparts, rfl, zsize, zvalues⟩ := hz.parts contains
      obtain ⟨-, there⟩ := there.parts
      obtain ⟨-, again⟩ := again.parts
      have size : zparts.length = xparts.length := zsize.trans xsize.symm
      refine congrArg Datum.composite (eq_of_getElem?_agree size fun k z x hz hx => ?_)
      obtain ⟨part, found⟩ := exists_getElem?_of_length_eq xsize.symm hx
      obtain ⟨part', found'⟩ := exists_getElem?_of_length_eq length.symm found
      obtain ⟨y, hy⟩ := exists_getElem?_of_length_eq ysize found'
      exact ih (inner k part part' found found') (xvalues k part x found hx)
        (yvalues k part' y found' hy) (zvalues k part z found hz) (there k x y hx hy)
        (again k y z hy hz)

end Alike

end Builder

end ShaderGen
