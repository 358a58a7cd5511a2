import ShaderGen.Proofs.Machine.Alike
import ShaderGen.Proofs.Machine.Writing

/-!
# Changes of representation

`Builder.recast` between two types that are alike succeeds, and the code that it writes takes every
value of the one type to the value of the other type that stands for the same
(`Builder.recast_succeeds`). Whole aggregates are copied where only the layout differs and the
version of the module has an instruction for it, and otherwise part by part.
-/

namespace ShaderGen

open Steps (Ends ends_bind ends_then)

variable {signed : Bool} {width : Nat} {id : Ident} {n : Nat} {type : Ident} {m : Machine}

theorem run_value {op : Opcode} {operands : List Operand} {y : Datum} (other : op ≠ .store)
    (h : Instruction.value? { op, type := some type, result := some id, operands } m = some y) :
    run [{ op, type := some type, result := some id, operands }] m = some
    (m.define id ⟨type, y⟩) := by
  rw [run_singleton]
  unfold Instruction.perform
  split
  · contradiction
  · rename_i htype hresult _
    cases htype
    cases hresult
    rw [h]
    rfl
  · rename_i none
    exact absurd rfl (none type id rfl)

/-! ## Truth values and numbers -/

theorem zip_replicate_length {α β : Type} (xs : List α) (c : β) :
    xs.zip (List.replicate xs.length c) = xs.map fun x => (x, c) := by
  induction xs with
  | nil => rfl
  | cons x rest ih => simp [List.replicate_succ, ih]

namespace Builder

variable {b b' : Builder} {source target : Ident} {fill : Nat → Datum} {x : Datum}

/-- The source is for truth values or vectors of them, and the target for the numbers that represent
them. A value of the target that is the same number all over is given by `fill`. -/
inductive Truths (b : Builder) (source target : Ident) (width : Nat) : (Nat → Datum) → Prop
  | scalar {signed : Bool} (form : b.form? source = some .bool)
      (form' : b.form? target = some (.int width signed)) (room : 0 < width) :
      Truths b source target width .number
  | vector {x y : Ident} {count : Nat} {signed : Bool}
      (form : b.form? source = some (.vector x count))
      (form' : b.form? target = some (.vector y count))
      (part : b.form? x = some .bool) (part' : b.form? y = some (.int width signed))
      (room : 0 < width) :
      Truths b source target width fun n => .composite (List.replicate count (.number n))

theorem Inhabits.pointwise {f : Datum → Option Datum} {R : Datum → Datum → Prop} {s t : Ident}
    {count : Nat} (value : b.Inhabits source x) (form : b.form? source = some (.vector s count))
    (form' : b.form? target = some (.vector t count))
    (each : ∀ d, b.Inhabits s d → ∃ e, f d = some e ∧ R d e ∧ b.Inhabits t e) :
    ∃ xs ys, x = .composite xs ∧ xs.length = count ∧ xs.mapM f = some ys ∧ List.Forall₂ R xs ys ∧
      b.Inhabits target (.composite ys) := by
  obtain ⟨xs, rfl, size, inner⟩ := value.parts (.vector form)
  rw [List.length_replicate] at size
  have component : ∀ {k d}, xs[k]? = some d → b.Inhabits s d := fun {k d} found => by
    have bound := (List.getElem?_eq_some_iff.1 found).1
    exact inner k s d (by rw [List.getElem?_replicate, if_pos (size ▸ bound)]) found
  obtain ⟨ys, computed, length, values⟩ := exists_mapM fun d mem => by
    obtain ⟨k, found⟩ := List.mem_iff_getElem?.1 mem
    obtain ⟨e, made, -⟩ := each d (component found)
    exact ⟨e, made⟩
  have parts : ∀ {k : Nat} {d e : Datum}, xs[k]? = some d → ys[k]? = some e → R d e ∧
    b.Inhabits t e :=
    fun {k d e} hd he => by
      obtain ⟨e', made, holds⟩ := each d (component hd)
      cases made.symm.trans (values k d e hd he)
      exact holds
  refine ⟨xs, ys, rfl, size, computed, List.forall₂_iff_get.2 ⟨length.symm, fun k hd he => ?_⟩,
    .composite (.vector form') (by simp [length, size]) fun k type e found he => ?_⟩
  · exact (parts (List.getElem?_eq_getElem hd) (List.getElem?_eq_getElem he)).1
  · obtain rfl := List.eq_of_mem_replicate (List.mem_of_getElem? found)
    obtain ⟨d, hd⟩ := exists_getElem?_of_length_eq length.symm he
    exact (parts hd he).2

/-- The second one is whether the first one is not zero. -/
def IsTruthOf (width : Nat) (d e : Datum) : Prop := ∃ n < 2 ^ width, d = .number n ∧
    e = .truth (n != 0)

/-- The second one is one if the first one is true, and else zero. -/
def IsNumberOf (d e : Datum) : Prop := ∃ t : Bool, d = .truth t ∧ e = .number t.toNat

theorem IsTruthOf.stands {d e : Datum} (h : IsTruthOf width d e) : d.Stands e := by
  obtain ⟨n, -, rfl, rfl⟩ := h
  exact .number n

theorem IsNumberOf.stands {d e : Datum} (h : IsNumberOf d e) : d.Stands e := by
  obtain ⟨t, rfl, rfl⟩ := h
  exact .truth t

theorem Truths.notEqual (h : b.Truths target source width fill) (value : b.Inhabits source x) :
    ∃ y, x.notEqual (fill 0) = some y ∧ x.Stands y ∧ x.Pointwise (IsTruthOf width) y ∧
    b.Inhabits target y := by
  have number : ∀ {s t : Ident} {signed : Bool}, b.form? t = some .bool →
      b.form? s = some (.int width signed) → ∀ d, b.Inhabits s d →
      ∃ e, d.differ (.number 0) = some e ∧ IsTruthOf width d e ∧ b.Inhabits t e := by
    intro s t signed form form' d inhabits
    obtain ⟨n, rfl, range⟩ := inhabits.of_int form'
    exact ⟨.truth (n != 0), rfl, ⟨n, range, rfl, rfl⟩, .truth form⟩
  cases h with
  | scalar form form' room =>
    obtain ⟨n, rfl, range⟩ := value.of_int form'
    exact ⟨_, rfl, .number n, .cons ⟨n, range, rfl, rfl⟩ .nil, .truth form⟩
  | vector form form' part part' room =>
    obtain ⟨xs, ys, rfl, rfl, computed, each, inhabits⟩ :=
      value.pointwise form' form (number part part')
    refine ⟨.composite ys, ?_, .of_forall₂ (each.imp fun _ _ => IsTruthOf.stands), each, inhabits⟩
    simp [Datum.notEqual, zip_replicate_length, Function.comp_def, computed]

theorem Truths.choose (h : b.Truths source target width fill) (value : b.Inhabits source x) :
    ∃ y, x.choose (fill 1) (fill 0) = some y ∧ x.Stands y ∧ x.Pointwise IsNumberOf y ∧
    b.Inhabits target y := by
  have truth : ∀ {s t : Ident} {signed : Bool}, 0 < width → b.form? s = some .bool →
      b.form? t = some (.int width signed) → ∀ d, b.Inhabits s d →
      ∃ e, d.pick (.number 1) (.number 0) = some e ∧ IsNumberOf d e ∧ b.Inhabits t e := by
    intro s t signed room form form' d inhabits
    obtain ⟨v, rfl⟩ := inhabits.of_bool form
    have range : v.toNat < 2 ^ width :=
      Nat.lt_of_lt_of_le (Bool.toNat_lt v) (Nat.pow_le_pow_right Nat.zero_lt_two room)
    exact ⟨.number v.toNat, by cases v <;> rfl, ⟨v, rfl, rfl⟩, .int form' range⟩
  cases h with
  | scalar form form' room =>
    obtain ⟨t, rfl⟩ := value.of_bool form
    obtain ⟨e, computed, number, inhabits⟩ := truth room form form' _ value
    obtain ⟨v, -, rfl⟩ := id number
    exact ⟨_, computed, number.stands, .cons number .nil, inhabits⟩
  | vector form form' part part' room =>
    obtain ⟨xs, ys, rfl, rfl, computed, each, inhabits⟩ :=
      value.pointwise form form' (truth room part part')
    refine ⟨.composite ys, ?_, .of_forall₂ (each.imp fun _ _ => IsNumberOf.stands), each, inhabits⟩
    simp [Datum.choose, zip_replicate_length, Function.comp_def, computed]

end Builder

/-! ## Constants -/

namespace Builder

variable {b b' : Builder} {type id : Ident} {n : Nat}

theorem ends_constNumber (form : b.form? type = some (.int width signed))
    (ends : Ends (constNumber type n) b id b') : Ends (constBits type n) b id b' := by
  obtain ⟨_, b0, ⟨rfl, rfl⟩, ends⟩ := ends_then Prod.mk.inj ends
  rw [form] at ends
  exact ends

theorem ends_constFilledWithin (form : b.form? type = some (.int width signed)) {depth : Nat}
    (ends : Ends (constFilledWithin depth type n) b id b') : Ends (constBits type n) b id b' := by
  cases depth with
  | zero => exact ends_constNumber form ends
  | succ depth =>
    obtain ⟨_, b0, ⟨rfl, rfl⟩, ends⟩ := ends_then Prod.mk.inj ends
    rw [form] at ends
    exact ends_constNumber form ends

end Builder

namespace Machine.Fits

variable {m : Machine} {b : Builder} {type id : Ident}

theorem bits (h : m.Fits b) (declared : b.HasBits type id n) (range : n < wordCount) :
    m.values id = some ⟨type, .number n⟩ := by
  rcases declared with word | wide
  · rw [Nat.mod_eq_of_lt range] at word
    exact h _ word type id _ rfl rfl (by simp [Instruction.ids]) rfl
  · exact h _ wide type id _ rfl rfl (by simp [Instruction.ids]) rfl

theorem composite (h : m.Fits b) {parts : List Ident} {values : List Datum}
    (declared : b.HasConstant .constantComposite type id (Operand.refs parts))
    (inner : ∀ x ∈ parts, x ∈ results b.output.globals) (read : parts.mapM m.read = some values) :
    m.values id = some ⟨type, .composite values⟩ := by
  refine h _ declared type id _ rfl rfl (by simpa [Instruction.ids] using inner) ?_
  simp [Instruction.constant?, read]

end Machine.Fits

theorem mapM_replicate_of {α β : Type} {f : α → Option β} {a : α} {c : β} (h : f a = some c)
    (count : Nat) : (List.replicate count a).mapM f = some (List.replicate count c) := by
  induction count with
  | zero => rfl
  | succ count ih => simp [List.replicate_succ, List.mapM_cons, h, ih]

namespace Builder

variable {b b' : Builder} {source target : Ident} {fill : Nat → Datum}

/-- The id is a constant with the value. -/
def Stores (b : Builder) (id : Ident) (d : Datum) : Prop :=
  ∀ (F : Builder) (m : Machine), b.Enters F → m.Fits F → m.read id = some d

theorem Stores.mono {d : Datum} (h : b.Stores id d) (enters : b.Enters b') : b'.Stores id d :=
  fun F m enters' => h F m (trans_of Enters enters enters')

theorem HasBits.mem_results (h : b.HasBits type id n) : id ∈ results b.output.globals := by
  rcases h with word | wide
  · exact List.mem_filterMap.2 ⟨_, word, rfl⟩
  · exact List.mem_filterMap.2 ⟨_, wide, rfl⟩

theorem Truths.filled (h : b.Truths source target width fill) (tidy : b.Tidy)
    (range : n < wordCount) (ends : Ends (constFilled target n) b id b')
    (fits : m.Fits b') : m.values id = some ⟨target, fill n⟩ := by
  obtain ⟨_, b0, ⟨rfl, rfl⟩, ends⟩ := ends_then Prod.mk.inj ends
  cases h with
  | scalar form form' room =>
    obtain ⟨tidy, later, found⟩ := constBits_makes target n b id b'
      (ends_constFilledWithin form' ends) tidy
    exact fits.bits (tidy.number (later.form form' rfl) found).hasBits range
  | @vector _ y count _ form form' part part' room =>
    obtain ⟨depth, some⟩ : ∃ depth, b.types.length = depth + 1 := by
      cases types : b.types with
      | nil => simp [form?, types] at form'
      | cons q rest => exact ⟨rest.length, rfl⟩
    rw [some] at ends
    obtain ⟨_, b0, ⟨rfl, rfl⟩, ends⟩ := ends_then Prod.mk.inj ends
    rw [form'] at ends
    obtain ⟨component, b1, first, second⟩ := ends_bind ends
    obtain ⟨tidy1, later1, found1⟩ := constBits_makes y n b component b1
      (ends_constFilledWithin part' first) tidy
    obtain ⟨tidy2, later2, found2⟩ := constComposite_makes target _ b1 id b' second tidy1
    have declared : b'.HasBits y component n :=
      later2.hasBits (tidy1.number (later1.form part' rfl) found1).hasBits
    refine fits.composite (tidy2.composites _ _ _ found2) (fun x mem => ?_)
      (mapM_replicate_of (Machine.read_of_values (fits.bits declared range)) count)
    rw [List.eq_of_mem_replicate mem]
    exact declared.mem_results

end Builder

/-! ## Code that changes representations -/

/-- Whole aggregates are copied only where the version of the module has an instruction for it, and
only between types that differ in nothing but their layout. What is copied has been given or
computed before. -/
def CopiesLayouts (b : Builder) (given : Ident → Ident → Prop) (code : List Instruction) : Prop :=
  ∀ i ∈ code, i.op = .copyLogical → b.version.atLeast .v1_4 = true ∧ ∃ x source target,
    i.operands = [.ref x] ∧ i.type = some target ∧ b.Matches source target ∧
    (given x source ∨ ∃ j ∈ code, j.result = some x ∧ j.type = some source)

namespace CopiesLayouts

variable {b b' : Builder} {given given' : Ident → Ident → Prop} {code code' : List Instruction}

theorem of_none (h : ∀ i ∈ code, i.op ≠ .copyLogical) : CopiesLayouts b given code :=
  fun i mem copies => absurd copies (h i mem)

theorem append (h : CopiesLayouts b given code) (later : b.Later b')
    (g : CopiesLayouts b' given' code')
    (known : ∀ x s, given' x s → given x s ∨ ∃ j ∈ code, j.result = some x ∧ j.type = some s) :
    CopiesLayouts b' given (code ++ code') := by
  intro i mem copies
  rcases List.mem_append.1 mem with first | second
  · obtain ⟨version, x, source, target, operands, type, ⟨depth, alike⟩, origin⟩ := h i first copies
    refine ⟨?_, x, source, target, operands, type, ⟨depth, alike.later later⟩, origin.imp_right ?_⟩
    · rwa [Builder.version, later.version]
    · exact fun ⟨j, mem, made⟩ => ⟨j, List.mem_append_left _ mem, made⟩
  · obtain ⟨version, x, source, target, operands, type, alike, origin⟩ := g i second copies
    refine ⟨version, x, source, target, operands, type, alike, ?_⟩
    rcases origin with old | ⟨j, mem, made⟩
    · exact (known x source old).imp_right fun ⟨j, mem, made⟩ =>
        ⟨j, List.mem_append_left _ mem, made⟩
    · exact .inr ⟨j, List.mem_append_right _ mem, made⟩

end CopiesLayouts

/-- The code takes every value of the source type that the machine holds to the value of the target
type that stands for the same. -/
structure Recasts (b b' : Builder) (given : Ident → Ident → Prop) (holds : Machine → Datum → Prop)
    (source id target : Ident) (code : List Instruction) : Prop where
  known : id < b'.output.bound
  copies : CopiesLayouts b' given code
  turns : ∀ (F : Builder) (m : Machine) (x : Datum), b'.Enters F → m.Fits F → holds m x →
    b.Inhabits source x → ∃ m' y, run code m = some m' ∧ m'.memory = m.memory ∧
      m'.values id = some ⟨target, y⟩ ∧ x.Stands y ∧ b'.Inhabits target y

/-- The code takes every value of the source type that the id has to the value of the target type
that stands for the same. -/
abbrev RecastsValue (b b' : Builder) (v source id target : Ident) (code : List Instruction) :
    Prop :=
  Recasts b b' (fun x s => x = v ∧ s = source) (fun m x => m.values v = some ⟨source, x⟩) source id
    target code

namespace Builder

variable {k depth : Nat} {b b' : Builder} {v source target : Ident} {fill : Nat → Datum}
  {allowed : TypeForm → TypeForm → Prop}

/-- An instruction computes a value of the target type from every value of the source type that the
id has. The components of the two are related, and they stand for the same. -/
structure Produces (b : Builder) (v source id target : Ident) (op : Opcode)
    (R : Datum → Datum → Prop) (code : List Instruction) : Prop where
  known : id < b.output.bound
  made : ∃ operands, code = [{ op, type := some target, result := some id, operands }]
  turns : ∀ (F : Builder) (m : Machine) (x : Datum), b.Enters F → m.Fits F →
  m.values v = some ⟨source, x⟩ →
    b.Inhabits source x → ∃ y, run code m = some (m.define id ⟨target, y⟩) ∧ x.Stands y ∧
      x.Pointwise R y ∧ b.Inhabits target y

theorem Truths.constFilled_succeeds (h : b.Truths source target width fill) (takes : b.Takes k)
    (range : n < wordCount) : Succeeds k b (liftM (constFilled target n)) fun id code b' =>
    code = [] ∧
      b'.Stores id (fill n) := by
  have ends : Ends (constFilled target n) b _ _ := rfl
  refine ⟨_, [], _, Embeds.lift_ends ends, ?_, rfl, fun F m enters fits => ?_⟩
  · exact writes_nil takes (constFilled_progress target n b _ _ ends)
      (constFilled_enters target n b _ _ ends)
      ((constFilled_provides (w := .inside) target n).acts.leads b _ _ ends)
  · exact Machine.read_of_values (h.filled takes.tidy range ends (fits.mono enters))

theorem Truths.later (h : b.Truths source target width fill) (later : b.Later b') :
    b'.Truths source target width fill := by
  cases h with
  | scalar form form' room => exact .scalar (later.form form rfl) (later.form form' rfl) room
  | vector form form' part part' room =>
    exact .vector (later.form form rfl) (later.form form' rfl) (later.form part rfl)
      (later.form part' rfl) room

theorem Truths.compare_succeeds (h : b.Truths target source width fill) (takes : b.Takes k)
    {nought : Ident}
    (zero : b.Stores nought (fill 0)) : Succeeds k b (emit .iNotEqual target [.ref v, .ref nought])
      fun id code b' => Produces b' v source id target .iNotEqual (IsTruthOf width) code := by
  refine (Succeeds.emit takes ..).mono fun id code b' writes ⟨_, below, made⟩ => ?_
  refine ⟨below, ⟨_, made⟩, fun F m x enters fits value inhabits => ?_⟩
  obtain ⟨y, computed, stands, each, result⟩ := (h.later writes.later).notEqual inhabits
  refine ⟨y, made ▸ run_value (by decide) ?_, stands, each, result⟩
  simp [Instruction.value?, Machine.read_of_values value, zero.mono writes.enters F m enters fits,
    computed]

theorem Truths.choose_succeeds (h : b.Truths source target width fill) (takes : b.Takes k)
    {unit nought : Ident} (one : b.Stores unit (fill 1)) (zero : b.Stores nought (fill 0)) :
    Succeeds k b (emit .select target [.ref v, .ref unit, .ref nought])
      fun id code b' => Produces b' v source id target .select IsNumberOf code := by
  refine (Succeeds.emit takes ..).mono fun id code b' writes ⟨_, below, made⟩ => ?_
  refine ⟨below, ⟨_, made⟩, fun F m x enters fits value inhabits => ?_⟩
  obtain ⟨y, computed, stands, each, result⟩ := (h.later writes.later).choose inhabits
  refine ⟨y, made ▸ run_value (by decide) ?_, stands, each, result⟩
  simp [Instruction.value?, Machine.read_of_values value, one.mono writes.enters F m enters fits,
    zero.mono writes.enters F m enters fits, computed]

theorem Produces.recasts {op : Opcode} {R : Datum → Datum → Prop} {code : List Instruction}
    (h : Produces b' v source id target op R code) (other : op ≠ .copyLogical)
    (later : b.Later b') : RecastsValue b b' v source id target code := by
  obtain ⟨operands, rfl⟩ := h.made
  refine ⟨h.known, .of_none (by simpa using other), fun F m x enters fits value inhabits => ?_⟩
  obtain ⟨y, computed, stands, -, result⟩ := h.turns F m x enters fits value (inhabits.later later)
  exact ⟨m.define id ⟨target, y⟩, y, computed, rfl, m.values_define_self _ _, stands, result⟩

theorem truthOfInt_succeeds (h : b.Truths target source width fill) (takes : b.Takes k) :
    Succeeds k b (truthOfInt v source target) fun id code b' =>
      RecastsValue b b' v source id target code := by
  refine (h.constFilled_succeeds takes (by decide)).bind fun nought _ b1 writes ⟨nil, zero⟩ => ?_
  subst nil
  exact ((h.later writes.later).compare_succeeds writes.takes zero).mono
    fun id code b' writes' computes =>
    computes.recasts (by decide) (writes.later.trans writes'.later)

theorem intOfTruth_succeeds (h : b.Truths source target width fill) (takes : b.Takes k) :
    Succeeds k b (intOfTruth v target) fun id code b' => RecastsValue b b' v source id target
    code := by
  refine (h.constFilled_succeeds takes (by decide)).bind fun unit _ b1 writes1 ⟨nil, one⟩ => ?_
  subst nil
  have h1 := h.later writes1.later
  refine (h1.constFilled_succeeds writes1.takes (by decide)).bind fun nought _ b2 writes2 ⟨nil,
    zero⟩ => ?_
  subst nil
  refine ((h1.later writes2.later).choose_succeeds writes2.takes (one.mono writes2.enters)
    zero).mono
    fun id code b' writes3 computes => computes.recasts (by decide) ?_
  exact (writes1.later.trans writes2.later).trans writes3.later

/-- The step changes the representation of a value of any two types that are alike. -/
def RecastsTo (k : Nat) (allowed : TypeForm → TypeForm → Prop) (depth : Nat) : Prop :=
  ∀ {b : Builder} {v source target : Ident}, b.Alike allowed depth source target → b.Takes k →
    v < b.output.bound → Succeeds k b (recastWithin depth v source target) fun id code b' =>
      RecastsValue b b' v source id target code

theorem recastPart_succeeds (each : RecastsTo k allowed depth) (n : Nat) (takes : b.Takes k)
    (alike : b.Alike allowed depth source target) : Succeeds k b (do
        let part ← emit .compositeExtract source [.ref v, .literal n]
        recastWithin depth part source target) fun id code b' =>
      Recasts b b' (fun _ _ => False)
      (fun m x => ∃ type xs, m.values v = some ⟨type, .composite xs⟩ ∧
        xs[n]? = some x) source id target code := by
  refine .bind (.emit takes ..) fun part _ b1 writes ⟨_, below, made⟩ => ?_
  subst made
  refine (each (alike.later writes.later) writes.takes below).mono fun id code b' writes' h => ?_
  refine ⟨h.known, .append (b := b') (.of_none (by simp)) (.refl b') h.copies ?_, ?_⟩
  · rintro x s ⟨rfl, rfl⟩
    exact .inr ⟨_, List.mem_singleton_self _, rfl, rfl⟩
  · rintro F m x enters fits ⟨type, xs, value, found⟩ inhabits
    have computed : Instruction.value?
        { op := .compositeExtract, type := some source, result := some part
          operands := [.ref v, .literal n] } m = some x := by
      simp [Instruction.value?, Machine.read_of_values value, Operand.literals, Datum.at?, found]
    have taken := run_value (by decide) computed
    have enters1 := trans_of Enters writes'.enters enters
    obtain ⟨m', y, turned, memory, result, stands, inhabits'⟩ := h.turns F _ x enters
      (writes.fits taken enters1 fits) (m.values_define_self _ _) (inhabits.later writes.later)
    exact ⟨m', y, (run_append taken).trans turned, memory, result, stands, inhabits'⟩

theorem recastParts_succeeds (each : RecastsTo k allowed depth) {qs : List (Ident × Ident)}
    (n : Nat) (takes : b.Takes k) (known : v < b.output.bound)
    (alike : ∀ q ∈ qs, b.Alike allowed depth q.1 q.2) :
    Succeeds k b ((qs.zipIdx n).mapM fun ((s, t), i) => do
        let part ← emit .compositeExtract s [.ref v, .literal i]
        recastWithin depth part s t) fun ids code b' =>
      CopiesLayouts b' (fun _ _ => False) code ∧ ∀ (F : Builder) (m : Machine) (type : Ident)
        (xs : List Datum), b'.Enters F → m.Fits F → m.values v = some ⟨type, .composite xs⟩ →
        (∀ (j : Nat) (q : Ident × Ident), qs[j]? = some q → ∃ x, xs[n + j]? = some x ∧
          b.Inhabits q.1 x) → ∃ m' ys, run code m = some m' ∧ m'.memory = m.memory ∧
        ids.mapM m'.read = some ys ∧ ys.length = qs.length ∧
        ∀ (j : Nat) (q : Ident × Ident) (x y : Datum),
          qs[j]? = some q → xs[n + j]? = some x → ys[j]? = some y → x.Stands y ∧
          b'.Inhabits q.2 y := by
  induction qs generalizing b n with
  | nil =>
    refine .pure takes ⟨.of_none (by simp), fun F m type xs _ _ _ _ => ?_⟩
    exact ⟨m, [], rfl, rfl, rfl, rfl, fun j q x y found => by simp at found⟩
  | cons q rest ih =>
    rw [List.zipIdx_cons, List.mapM_cons]
    refine .bind (recastPart_succeeds each n takes (alike q List.mem_cons_self))
      fun id code b1 writes1 first => ?_
    refine .bind (ih (n + 1) writes1.takes (Nat.lt_of_lt_of_le known writes1.enters.bound)
      fun q' mem => (alike q' (List.mem_cons_of_mem q mem)).later writes1.later)
      fun ids code' b2 writes2 ⟨copies, others⟩ => ?_
    refine .pure writes2.takes ⟨?_, fun F m type xs enters fits value inhabits => ?_⟩
    · rw [List.append_nil]
      exact first.copies.append writes2.later copies fun _ _ => .inl
    · obtain ⟨x, found, inhabitsFirst⟩ := inhabits 0 q rfl
      have enters1 := trans_of Enters writes2.enters enters
      obtain ⟨m1, y, run1, memory1, result1, stands, inhabits1⟩ := first.turns F m x enters1 fits
        ⟨type, xs, value, found⟩ inhabitsFirst
      obtain ⟨m2, ys, run2, memory2, results2, length, parts⟩ := others F m1 type xs enters
        (writes1.fits run1 enters1 fits) ((writes1.values run1 known).trans value)
        fun j q' found' => by
          obtain ⟨x', foundX, inhabits'⟩ := inhabits (j + 1) q' found'
          exact ⟨x', by rwa [Nat.add_right_comm, Nat.add_assoc], inhabits'.later writes1.later⟩
      have kept : m2.read id = some y :=
        Machine.read_of_values ((writes2.values run2 first.known).trans result1)
      refine ⟨m2, y :: ys, ?_, memory2.trans memory1, by simp [List.mapM_cons, kept, results2],
        by simp [length], fun j q' x' y' hq hx hy => ?_⟩
      · rw [List.append_nil]
        exact (run_append run1).trans run2
      · cases j with
        | zero =>
          cases hq
          cases hy
          cases found.symm.trans hx
          exact ⟨stands, inhabits1.later writes2.later⟩
        | succ j =>
          exact parts j q' x' y' hq (by rwa [Nat.add_right_comm, Nat.add_assoc]) hy

/-- One instruction copies an aggregate if only its layout differs. -/
theorem copyLogical_succeeds (h : b.Alike allowed depth source target) (takes : b.Takes k)
    (can : b.canCopyLogically source target = true) :
    Succeeds k b (emit .copyLogical target [.ref v]) fun id code b' =>
      RecastsValue b b' v source id target code := by
  rw [canCopyLogically, Bool.and_eq_true, Bool.not_eq_true'] at can
  have same := h.within_nesting.of_agree (Nat.le_refl _) can.2
  refine (Succeeds.emit takes ..).mono fun id code b' writes ⟨_, below, made⟩ => ?_
  subst made
  refine ⟨below, fun i mem _ => ?_, fun F m x enters fits value inhabits => ?_⟩
  · obtain rfl := List.mem_singleton.1 mem
    refine ⟨?_, v, source, target, rfl, rfl, ⟨_, same.later writes.later⟩, .inl ⟨rfl, rfl⟩⟩
    rw [Builder.version, writes.later.version]
    exact can.1
  · exact ⟨_, x, run_value (by decide) (Machine.read_of_values value), rfl,
      m.values_define_self _ _, .same x, (same.inhabits inhabits).later writes.later⟩

theorem recastAggregate_succeeds (each : RecastsTo k allowed depth) (takes : b.Takes k)
    (known : v < b.output.bound) (h : b.Alike allowed (depth + 1) source target)
    {xs ys : List Ident} (contains : b.Contains source xs) (contains' : b.Contains target ys)
    (parts : b.partTypes source = .ok xs) (parts' : b.partTypes target = .ok ys)
    (length : xs.length = ys.length)
    (members : ∀ (j : Nat) (x y : Ident), xs[j]? = some x → ys[j]? = some y →
      b.Alike allowed depth x y) :
    Succeeds k b (if b.canCopyLogically source target then emit .copyLogical target [.ref v] else do
        let sourceParts ← Build.ofExcept (b.partTypes source)
        let targetParts ← Build.ofExcept (b.partTypes target)
        if sourceParts.length ≠ targetParts.length then
          Build.fail (.differentShapes source target)
        let parts ← (sourceParts.zip targetParts).zipIdx.mapM fun ((s, t), i) => do
          let part ← emit .compositeExtract s [.ref v, .literal i]
          recastWithin depth part s t
        emit .compositeConstruct target (Operand.refs parts)) fun id code b' =>
      RecastsValue b b' v source id target code := by
  split
  · exact copyLogical_succeeds h takes ‹_›
  rw [parts, parts']
  simp only [Build.ofExcept, pure_bind, length, ne_eq, not_true_eq_false, if_false]
  have alike : ∀ q ∈ xs.zip ys, b.Alike allowed depth q.1 q.2 := fun q mem => by
    obtain ⟨j, found⟩ := List.mem_iff_getElem?.1 mem
    obtain ⟨hx, hy⟩ := List.getElem?_zip_eq_some.1 found
    exact members j q.1 q.2 hx hy
  refine .bind (recastParts_succeeds each 0 takes known alike)
    fun ids code b1 writes ⟨copies, turns⟩ => ?_
  refine (Succeeds.emit writes.takes ..).mono fun id _ b' writes' ⟨_, below, made⟩ => ?_
  subst made
  refine ⟨below, ?_, fun F m x enters fits value inhabits => ?_⟩
  · have none : ∀ x s : Ident, False → (x = v ∧ s = source) ∨ ∃ j ∈ code, j.result = some x ∧
        j.type = some s := fun _ _ => False.elim
    refine .append (fun i mem op => ?_) writes'.later (.of_none (by simp)) none
    obtain ⟨version, x, s, t, operands, type, alike, origin⟩ := copies i mem op
    exact ⟨version, x, s, t, operands, type, alike, .inr (origin.resolve_left not_false)⟩
  · obtain ⟨data, rfl, size, inner⟩ := inhabits.parts contains
    obtain ⟨m1, made, run1, memory, read, count, results⟩ := turns F m source data
      (trans_of Enters writes'.enters enters) fits value fun j q found => by
        obtain ⟨hx, hy⟩ := List.getElem?_zip_eq_some.1 found
        obtain ⟨d, hd⟩ := exists_getElem?_of_length_eq size hx
        exact ⟨d, by rwa [Nat.zero_add], inner j q.1 d hx hd⟩
    have size' : made.length = ys.length := by simp [count, length]
    have pair : ∀ {j : Nat} {y : Ident} {d e : Datum}, ys[j]? = some y → data[j]? = some d →
        made[j]? = some e → d.Stands e ∧ b1.Inhabits y e := fun {j y d e} hy hd he => by
      obtain ⟨x, hx⟩ := exists_getElem?_of_length_eq length hy
      exact results j (x, y) d e (List.getElem?_zip_eq_some.2 ⟨hx, hy⟩) (by rwa [Nat.zero_add]) he
    refine ⟨m1.define id ⟨target, .composite made⟩, .composite made, ?_, memory,
      m1.values_define_self _ _, .composite (size.trans (length.trans size'.symm))
      fun j d e hd he => ?_,
      .composite ((contains'.later writes.later).later writes'.later) size' fun j y e hy he => ?_⟩
    · refine (run_append run1).trans (run_value (by decide) ?_)
      simp [Instruction.value?, read]
    · obtain ⟨y, hy⟩ := exists_getElem?_of_length_eq size'.symm he
      exact (pair hy hd he).1
    · obtain ⟨d, hd⟩ := exists_getElem?_of_length_eq (size.trans length) hy
      exact (pair hy hd he).2.later writes'.later

theorem recastWithin_succeeds (k : Nat) (allowed : TypeForm → TypeForm → Prop) (depth : Nat) :
    RecastsTo k allowed depth := by
  induction depth with
  | zero =>
    intro b v source target h
    cases h
  | succ depth ih =>
    intro b v source target h takes known
    by_cases equal : source = target
    · subst equal
      rw [recastWithin, if_pos rfl]
      exact .pure takes ⟨known, .of_none (by simp),
        fun F m x _ _ value inhabits => ⟨m, x, rfl, rfl, value, .same x, inhabits⟩⟩
    rw [recastWithin, if_neg equal]
    refine .get ?_
    have aggregate := h
    cases h with
    | same => exact absurd rfl equal
    | scalar form form' differs may =>
      rcases differs with ⟨rfl, _, _, rfl, room⟩ | ⟨rfl, _, _, rfl, room⟩
      · simp only [form, form']
        exact intOfTruth_succeeds (.scalar form form' room) takes
      · simp only [form, form']
        exact truthOfInt_succeeds (.scalar form' form room) takes
    | vector form form' part part' differs may =>
      simp only [form, form']
      rcases differs with ⟨rfl, _, _, rfl, room⟩ | ⟨rfl, _, _, rfl, room⟩
      · rw [if_neg (by rw [isBool, part']; exact Bool.false_ne_true),
          if_pos (by rw [isBool, part]; rfl)]
        exact intOfTruth_succeeds (.vector form form' part part' room) takes
      · rw [if_pos (by rw [isBool, part']; rfl)]
        exact truthOfInt_succeeds (.vector form' form part' part room) takes
    | array form form' literal literal' elements =>
      simp only [form, form']
      refine recastAggregate_succeeds ih takes known aggregate (.array form literal)
        (.array form' literal') ?_ ?_ (by simp) fun j x y hx hy => ?_
      · simp only [partTypes, form, literal.literal]
      · simp only [partTypes, form', literal'.literal]
      · obtain rfl := List.eq_of_mem_replicate (List.mem_of_getElem? hx)
        obtain rfl := List.eq_of_mem_replicate (List.mem_of_getElem? hy)
        exact elements
    | struct form form' length members =>
      simp only [form, form']
      refine recastAggregate_succeeds ih takes known aggregate (.struct form)
        (.struct form') ?_ ?_ length
        members
      · rw [partTypes, form]
      · rw [partTypes, form']

theorem recast_succeeds (h : b.Alike allowed depth source target) (takes : b.Takes k)
    (known : v < b.output.bound) : Succeeds k b (recast v source target) fun id code b' =>
      RecastsValue b b' v source id target code :=
  .get (recastWithin_succeeds k allowed _ h.within_nesting takes known)

end Builder

end ShaderGen
