import ShaderGen.Proofs.Typing.Integers

/-!
# Simple operands

An operand that is simple is evaluated even where its value may not be needed, so nothing but its
value may come of it. `State.Evaluating` is what such an evaluation consists of, and
`Codegen.simple_evaluates` says that the code of a simple operand does no more. What has to be kept
track of are the indices into a value: a value is only spilled to memory where one of them is no
constant.
-/

namespace ShaderGen

open Builder Codegen
open Builder (Computed)
open Relation (ReflTransGen)
open Steps (Ends ends_bind)

variable {p : Program} {signed : Bool} {width : Nat}

/-! ## Evaluation -/

namespace State

variable {s t u : State}

/-- One step of evaluation. No code is written, or an instruction that only computes a value goes to
the block that takes instructions, or a local symbol that is used for the first time gets its
variable. -/
inductive Evaluating (p : Program) : State → State → Prop
  | note {s t : State} (code : s.builder.SameCode t.builder) : Evaluating p s t
  | append {s : State} {b : Builder} {i : Instruction} {u : Unit} (inert : i.op.isInert)
      (ends : Ends (append i) s.builder u b) : Evaluating p s { s with builder := b }
  | declare {s t : State} {x : SymbolId} {d : Symbol} {binding : Binding}
      (found : p.symbol? x = some d) (own : ¬ p.isGlobal x d)
      (first : s.bindings.lookup x = none) (ends : Ends (localObject (typer p) d) s binding t) :
      Evaluating p s t

/-- No block is begun or ended. -/
theorem Evaluating.place (h : s.Evaluating p t) : t.builder.place = s.builder.place := by
  cases h with
  | note code => exact code.place
  | append _ ends =>
    obtain ⟨k, -, -, rfl⟩ := ends_append ends
    rfl
  | declare _ _ _ ends =>
    obtain ⟨type, s1, types, var, s2, declares, ends⟩ := ends_bind₂ ends
    obtain ⟨_, s3, decorates, ends⟩ := ends_bind ends
    cases ends
    obtain ⟨b, built, rfl⟩ := ends_lift Build declares
    obtain ⟨_, _, _, _, _, points, -, -, -, -, -, names⟩ := ends_localVariable built
    have typed := ((typer_learns (w := .inside) p _).acts.leads _ _ _ types).code.place
    have pointed := ((typePointer_provides (w := .inside) _ _).acts.leads _ _ _ points).place
    have named := ((name_provides (w := .inside) _ _).acts.leads _ _ _ names).place
    have decorated : ∀ o : Option Decoration, ShaderGen.Keeps .inside Learns
        (o.forM fun q => (decorate var q : Codegen Unit)) :=
      fun _ => .optionForM fun q _ => (decorate_provides var q).silent.up
    exact ((decorated _).leads _ _ _ decorates).code.place.trans (named.trans (pointed.trans typed))

/-- What is remembered about types is true, and all symbols at module scope are bound. -/
structure Ready (p : Program) (s : State) : Prop where
  regular : s.Regular p
  bound : ∀ x d, p.symbol? x = some d → p.isGlobal x d → (s.bindings.lookup x).isSome

theorem Ready.onward (h : s.Ready p) (trace : Trace p s t) : t.Ready p := by
  refine ⟨trace.regular h.regular, fun x d found isGlobal => ?_⟩
  have bound := h.bound x d found isGlobal
  induction trace with
  | refl => exact bound
  | tail _ step ih =>
    cases step with
    | modest h => rwa [h.bindings]
    | bind =>
      rw [List.lookup_cons]
      split
      · rfl
      · exact ih
    | refer | number | struct => exact ih

/-- Evaluation leads from one state to another. -/
structure Reaches (p : Program) (s t : State) : Prop where
  steps : ReflTransGen (Evaluating p) s t
  trace : Trace p s t

namespace Reaches

theorem trans (h : s.Reaches p t) (g : t.Reaches p u) : s.Reaches p u :=
  ⟨h.steps.trans g.steps, h.trace.trans g.trace⟩

theorem ready (h : s.Reaches p t) (ready : s.Ready p) : t.Ready p := ready.onward h.trace

theorem later (h : s.Reaches p t) (ready : s.Ready p) : s.builder.Later t.builder :=
  (h.trace.keeps ready.regular).later

end Reaches

def Evaluates (p : Program) (s t : State) : Prop := s.Ready p → s.Reaches p t

instance : IsPreorder State (Evaluates p) where
  refl _ _ := ⟨.refl, .refl⟩
  trans _ _ _ h g ready := (h ready).trans (g ((h ready).ready ready))

end State

/-- What steps do that are part of an evaluation. -/
def Evaluation (p : Program) : Effect State := .only (State.Evaluates p)

instance : State.Computes p (Evaluation p) where
  refl := refl_of (State.Evaluates p)
  trans := trans_of (State.Evaluates p)
  wants := id
  note step code ready := ⟨.single (.note code), step.onward ready.regular⟩
  computed {s b} h ready := by
    refine ⟨h.lift (fun b => { s with builder := b }) fun _ _ step => ?_,
      (State.Computes.computed (E := Quiet p) h).onward ready.regular⟩
    cases step with
    | declare _ code => exact .note code
    | append inert ends => exact .append inert ends

/-! ## Constants -/

theorem ShaderType.exists_isInteger {t : ShaderType} (scalar : t.isScalar) (integer : t.isInteger) :
    ∃ width signed, t.IsInteger width signed := by
  simp only [isInteger, isSignedInt, isUnsignedInt, Bool.or_eq_true] at integer
  cases basic : t.basic with
  | int width => exact ⟨width, true, scalar, basic⟩
  | uint width => exact ⟨width, false, scalar, basic⟩
  | _ => simp [basic] at integer

theorem integer_form {t : ShaderType} (integer : t.IsInteger width signed) {s u : State}
    {id : Ident} (ends : Ends (valueType p t) s id u) (regular : s.Regular p) :
    u.builder.form? id = some (.int width signed) := by
  rw [valueType_integer integer] at ends
  exact ((typeInt_makes width signed).lift ends regular).2.known

theorem ends_recast_integers {b b' : Builder} {v source target id : Ident} {w w' : Nat}
    {signed' : Bool}
    (form : b.form? source = some (.int w signed)) (form' : b.form? target = some (.int w' signed'))
    (ends : Ends (recast v source target) b id b') : id = v ∧ b' = b := by
  replace ends := ends_get ends
  rw [nesting, recastWithin] at ends
  split at ends
  · cases ends
    exact ⟨rfl, rfl⟩
  · replace ends := ends_get ends
    rw [form, form'] at ends
    cases ends

/-- Integers, as constants. -/
def Node.isIndex : Node → Bool
  | .constant info (.int _) | .constant info (.uint _) => info.type.isScalar && info.type.isInteger
  | _ => false

theorem constant_literal {value : ConstantValue} {t : ShaderType}
    (single : ∀ parts, value ≠ .composite parts) (integer : t.IsInteger width signed) {s u : State}
    {id : Ident} (regular : s.Regular p) (ends : Ends (constant p (typer p) value t) s id u) :
    (u.builder.literal? id).isSome := by
  obtain ⟨tidy, integer⟩ := hasInteger_of_constant integer single regular ends .refl
  obtain ⟨_, -, number⟩ := integer.number tidy
  exact Option.isSome_of_eq_some number.literal

/-! ## Operands -/

namespace AccessPath

variable {q path : AccessPath} {b b' : Builder} {more : List Ident}

/-- All indices into a value are constants. -/
def IsConstant (path : AccessPath) (b : Builder) : Prop :=
  path.isValue → ∀ i ∈ path.indices, (b.literal? i).isSome

theorem IsConstant.later (h : path.IsConstant b) (later : b.Later b') : path.IsConstant b' :=
  fun value i mem => by
    obtain ⟨n, found⟩ := Option.isSome_iff_exists.1 (h value i mem)
    exact Option.isSome_of_eq_some (later.literals i n found)

theorem IsConstant.extend (h : path.IsConstant b) (onward : q.Extends path more)
    (known : ∀ i ∈ more, (b.literal? i).isSome) : q.IsConstant b := fun value i mem => by
  rw [onward.indices, List.mem_append] at mem
  exact mem.elim (h (onward.isValue ▸ value) i) (known i)

theorem IsConstant.literals (h : path.IsConstant b) (value : path.isValue) :
    (path.literals? b).isSome := by
  obtain ⟨ys, found, -⟩ := exists_mapM fun i mem => Option.isSome_iff_exists.1
    ((Option.isSome_map (f := (· % wordCount))).trans (h value i mem))
  exact Option.isSome_of_eq_some found

end AccessPath

/-- The code does no more than evaluate. If it gives a part of a value, the indices are constants.
-/
def IsEvaluation (p : Program) (c : Codegen Outcome) : Prop :=
  ∀ s o t, Ends c s o t → s.Ready p → s.Reaches p t ∧ ∀ q, o = .path q → q.IsConstant t.builder

namespace IsEvaluation

variable {d left right : Deferred} {s t : State} {n : Node}

theorem of_value {c : Codegen Outcome} (h : Relates (State.Evaluates p) c)
    (other : ∀ s q t, ¬ Ends c s (.path q) t) : IsEvaluation p c := fun s o t ends ready =>
  ⟨h s o t ends ready, fun q path => absurd (path ▸ ends) (other s q t)⟩

theorem value (h : IsEvaluation p d.run) : Relates (State.Evaluates p) (d.value p) := by
  intro s v u ends ready
  obtain ⟨type, s1, types, ends⟩ := ends_bind ends
  have first := (typer_acts (E := Evaluation p) (w := .inside) _).leads s type s1 types ready
  obtain ⟨o, s2, runs, ends⟩ := ends_bind ends
  obtain ⟨second, constant⟩ := h s1 o s2 runs (first.ready ready)
  have ready2 := second.ready (first.ready ready)
  have done : ∀ {b}, s2.builder.Computed b → s.Reaches p { s2 with builder := b } := fun computed =>
    first.trans (second.trans (State.Computes.computed (E := Evaluation p) computed ready2))
  cases o with
  | value v =>
    obtain ⟨id, s3, recasts, ends⟩ := ends_bind ends
    cases ends
    obtain ⟨b, built, rfl⟩ := ends_lift Build recasts
    exact done ((recast_does (E := Builder.Calculating) _ _ _).acts.leads _ _ _ built)
  | path q =>
    obtain ⟨id, s3, loads, ends⟩ := ends_bind ends
    cases ends
    obtain ⟨b, built, rfl⟩ := ends_lift Build loads
    refine done (AccessPath.ends_load built fun value b1 computed => ?_)
    have reaches := State.Computes.computed (E := Evaluation p) computed ready2
    exact ((constant q rfl).later (reaches.later ready2)).literals value
  | void => cases ends

theorem path (h : IsEvaluation p d.run) {q : AccessPath} (ready : s.Ready p)
    (ends : Ends d.path s q t) : s.Reaches p t ∧ q.IsConstant t.builder := by
  obtain ⟨o, s1, runs, ends⟩ := ends_bind ends
  obtain ⟨reaches, constant⟩ := h s o s1 runs ready
  cases o with
  | value v =>
    cases ends
    exact ⟨reaches, fun _ i mem => by cases mem⟩
  | path q =>
    cases ends
    exact ⟨reaches, constant q rfl⟩
  | void => cases ends

theorem bindingOf (x : SymbolId) : Relates (State.Evaluates p) (bindingOf p (typer p) x) := by
  intro s binding t ends ready
  refine ⟨?_, bindingOf_proceeds x s binding t ends ready.regular⟩
  replace ends := ends_get ends
  split at ends
  · cases ends
    exact .refl
  · rename_i unbound
    obtain ⟨d, _, finds, ends⟩ := ends_bind ends
    obtain ⟨found, rfl⟩ := symbol_ends finds
    obtain ⟨binding, s1, binds, _, s2, enters, ends⟩ := ends_bind₂ ends
    cases ends
    cases enters
    refine .tail (b := s1) ?_ (.note ⟨rfl, rfl, rfl⟩)
    unfold newBinding at binds
    split at binds
    · have learns :=
        (specConstant_learns (w := .inside) (typer_learns p) x d).acts.leads _ _ _ binds
      exact .single (.note learns.code)
    split at binds
    · obtain ⟨type, s2, types, id, s3, makes, binds⟩ := ends_bind₂ binds
      cases binds
      have typed := ((typer_learns (w := .inside) p _).acts.leads _ _ _ types).code
      have made :=
        ((constant_learns (w := .inside) (typer_learns p) _ _).acts.leads _ _ _ makes).code
      exact .tail (.single (.note typed)) (.note made)
    split at binds
    · simpa [unbound] using ready.bound x d found ‹_›
    · exact .single (.declare found ‹_› unbound binds)

theorem symbolPath (x : SymbolId) :
    IsEvaluation p (do return .path (← Codegen.symbolPath p x)) := by
  intro s o t ends ready
  obtain ⟨q, s1, paths, ends⟩ := ends_bind ends
  cases ends
  obtain ⟨binding, s2, binds, d, _, finds, paths⟩ := ends_bind₂ paths
  obtain ⟨-, rfl⟩ := symbol_ends finds
  have reaches := bindingOf x s binding s2 binds ready
  cases binding with
  | object | value =>
    cases paths
    exact ⟨reaches, fun q same _ i mem => by cases same; cases mem⟩

theorem literal (value : ConstantValue) (t : ShaderType) : IsEvaluation p (literal p value t) := by
  refine .of_value (literal_does (E := Evaluation p) [] value t).acts.leads fun s q u ends => ?_
  obtain ⟨_, _, -, _, _, -, ends⟩ := ends_bind₂ ends
  cases ends

theorem swizzle (h : IsEvaluation p d.run) (components : List Nat) (info : Info) :
    IsEvaluation p (swizzle p d components info) := by
  intro s o t ends ready
  unfold Codegen.swizzle at ends
  split at ends
  · obtain ⟨v, s1, values, type, s2, types, ends⟩ := ends_bind₂ ends
    have typed := trans_of (State.Evaluates p) (h.value _ _ _ values)
      ((typer_acts (E := Evaluation p) (w := .inside) _).leads _ _ _ types)
    split at ends
    · cases ends
      exact ⟨typed ready, fun q path => by cases path⟩
    · obtain ⟨id, s3, emits, ends⟩ := ends_bind ends
      cases ends
      have emitted :=
        (computeOn_does (E := Evaluation p) .compositeConstruct _ _ rfl).acts.leads _ _ _ emits
      exact ⟨trans_of (State.Evaluates p) typed emitted ready, fun q path => by cases path⟩
  · obtain ⟨path, s1, paths, q, s2, selects, ends⟩ := ends_bind₂ ends
    cases ends
    obtain ⟨reaches, constant⟩ := h.path ready paths
    obtain ⟨b, built, rfl⟩ := ends_lift Build selects
    obtain ⟨onward, rfl⟩ := AccessPath.ends_selectComponents built
    exact ⟨reaches, fun q same => by cases same; exact constant.extend onward (by simp)⟩

theorem index (isIndex : n.isIndex) {v : Value} (ready : s.Ready p)
    (ends : Ends (Deferred.value p ⟨n, code p n⟩) s v t) :
    s.Reaches p t ∧ n.constant?.isSome ∧ (t.builder.literal? v.id).isSome := by
  obtain ⟨info, constant, rfl, single, scalar, integer⟩ : ∃ info value, n = .constant info value ∧
      (∀ parts, value ≠ .composite parts) ∧ info.type.isScalar ∧ info.type.isInteger := by
    unfold Node.isIndex at isIndex
    split at isIndex
    · exact ⟨_, _, rfl, by simp, by simpa using isIndex⟩
    · exact ⟨_, _, rfl, by simp, by simpa using isIndex⟩
    · cases isIndex
  have isEvaluation : IsEvaluation p (code p (.constant info constant)) :=
    literal constant info.type
  refine ⟨value isEvaluation _ _ _ ends ready, rfl, ?_⟩
  obtain ⟨type, s1, types, o, s2, runs, ends⟩ := ends_bind₂ ends
  obtain ⟨type', s3, types', id, s4, makes, runs⟩ := ends_bind₂ runs
  cases runs
  obtain ⟨id', s5, recasts, ends⟩ := ends_bind ends
  cases ends
  obtain ⟨b, built, rfl⟩ := ends_lift Build recasts
  have first := (typer_acts (E := Evaluation p) (w := .inside) _).leads _ _ _ types ready
  have ready1 := first.ready ready
  have second := (typer_acts (E := Evaluation p) (w := .inside) _).leads _ _ _ types' ready1
  have ready2 := second.ready ready1
  have third := (constant_acts (E := Evaluation p) (w := .inside) _ _).leads _ _ _ makes ready2
  obtain ⟨width, signed, integer⟩ := ShaderType.exists_isInteger scalar integer
  have form := integer_form integer types ready.regular
  have form' := integer_form integer types' ready1.regular
  obtain ⟨rfl, rfl⟩ := ends_recast_integers ((third.later ready2).form form' rfl)
    (((second.trans third).later ready1).form form rfl) built
  exact constant_literal single integer ready2.regular makes

theorem elementPath (h : IsEvaluation p d.run) (isIndex : n.isIndex) (info : Info) :
    IsEvaluation p (do return .path (← elementPath p d ⟨n, code p n⟩ info)) := by
  intro s o t ends ready
  obtain ⟨q, _, paths, ends⟩ := ends_bind ends
  cases ends
  obtain ⟨path, s1, paths, i, s2, values, selects⟩ := ends_bind₂ paths
  obtain ⟨first, constant⟩ := h.path ready paths
  obtain ⟨second, given, literal⟩ := index isIndex (first.ready ready) values
  rw [if_neg (by simp [Option.isSome_iff_ne_none.1 given])] at selects
  obtain ⟨b, built, rfl⟩ := ends_lift Build selects
  obtain ⟨⟨more, sub, onward⟩, rfl⟩ := AccessPath.ends_selectIndex built
  refine ⟨first.trans second, fun q same => ?_⟩
  cases same
  have kept : ∀ c n, (path.absorb c n).IsConstant s2.builder := fun _ _ =>
    constant.later (second.later (first.ready ready))
  exact (kept _ _).extend onward fun i' mem => by rwa [List.mem_singleton.1 (sub mem)]

theorem ownerPath (h : IsEvaluation p d.run) {r : AccessPath × StructId} (ready : s.Ready p)
    (ends : Ends (ownerPath p d) s r t) : s.Reaches p t ∧ r.1.IsConstant t.builder := by
  unfold Codegen.ownerPath at ends
  split at ends
  · obtain ⟨v, s1, values, pointee, s2, follows, ends⟩ := ends_bind₂ ends
    cases ends
    have followed := (followReference_acts (E := Evaluation p) (w := .inside) _).leads _ _ _ follows
    exact ⟨trans_of (State.Evaluates p) (h.value _ _ _ values) followed ready,
      fun value => by cases value⟩
  · obtain ⟨path, s1, paths, ends⟩ := ends_bind ends
    cases ends
    exact h.path ready paths
  · cases ends

theorem memberPath (h : IsEvaluation p d.run) (index : Node) :
    IsEvaluation p (do return .path (← memberPath p d index)) := by
  intro s o t ends ready
  obtain ⟨q, _, paths, ends⟩ := ends_bind ends
  cases ends
  unfold Codegen.memberPath at paths
  split at paths
  · cases paths
  obtain ⟨⟨path, id⟩, s1, owns, selects⟩ := ends_bind paths
  obtain ⟨first, constant⟩ := h.ownerPath ready owns
  have ready1 := first.ready ready
  have second := (selectSourceMember_does (E := Evaluation p) [] path id _).acts.leads _ _ _
    selects ready1
  refine ⟨first.trans second, fun q same => ?_⟩
  cases same
  obtain ⟨k, s2, places, selects⟩ := ends_bind selects
  have third := (bodyPosition_does (E := Evaluation p) [] _ _).acts.leads _ _ _ places ready1
  split at selects
  · cases selects
  obtain ⟨_, s3, requires, selects⟩ := ends_bind selects
  have fourth :=
    ((require_does (builtInRequirements_general _ _ _)).compute (E := Evaluation p)).acts.leads
    _ _ _ requires (third.ready ready1)
  obtain ⟨b, built, rfl⟩ := ends_lift Build selects
  obtain ⟨i, b1, makes, built⟩ := ends_bind built
  obtain ⟨_, made, rfl⟩ := ends_lift Emit makes
  obtain ⟨⟨more, sub, onward⟩, rfl⟩ := AccessPath.ends_selectIndex built
  have kept : ∀ c n, (path.absorb c n).IsConstant b1 :=
    fun _ _ => constant.later (second.later ready1)
  refine (kept _ _).extend onward fun i' mem => ?_
  rw [List.mem_singleton.1 (sub mem)]
  obtain ⟨tidy, -, integer⟩ :=
    constInteger_makes 32 true _ _ _ _ made (fourth.ready (third.ready ready1)).regular.tidy
  obtain ⟨_, -, number⟩ := integer.number tidy
  exact Option.isSome_of_eq_some number.literal

theorem unaryOperation (h : IsEvaluation p d.run) (op : UnaryOp) (info : Info) :
    IsEvaluation p (unaryOperation p op d info) := by
  refine .of_value (.bind h.value fun v =>
    (unaryValue_does op d.type info v : Does (Evaluation p)
      [.value v.id, .shared v.type, .body p []] _ _).acts.leads) fun s q t ends => ?_
  obtain ⟨v, s1, -, ends⟩ := ends_bind ends
  split at ends
  · unfold unsupported at ends
    split at ends
    · obtain ⟨_, _, -, ends⟩ := ends_bind ends
      cases ends
    · obtain ⟨_, _, -, _, _, -, ends⟩ := ends_bind₂ ends
      cases ends
  · dsimp only at ends
    split at ends
    all_goals
      obtain ⟨_, _, -, ends⟩ := ends_bind ends
      cases ends

theorem binaryOperation (hl : IsEvaluation p left.run) (hr : IsEvaluation p right.run)
    (op : BinaryOp) (info : Info) : IsEvaluation p (binaryOperation p op left right info) := by
  refine .of_value (.bind (.bind hl.value fun _ => .pure) fun l =>
    .bind (.bind hr.value fun _ => .pure) fun r =>
    .bind (operation_does (E := Evaluation p) [] op l r _ _).acts.leads fun _ => .pure)
    fun s q t ends => ?_
  obtain ⟨_, _, -, _, _, -, ends⟩ := ends_bind₂ ends
  obtain ⟨_, _, -, ends⟩ := ends_bind ends
  cases ends

end IsEvaluation

/-- Where something is selected by a constant index, the index is an integer. -/
def Node.hasConstantIndices : Node → Bool
  | .swizzle _ n _ | .unary _ _ n => n.hasConstantIndices
  | .binary _ op left right =>
    left.hasConstantIndices && right.hasConstantIndices && (op != .indexConstant || right.isIndex)
  | _ => true
termination_by structural n => n

theorem leaf_evaluates {n : Node} (leaf : n.isSimpleLeaf) (indices : n.hasConstantIndices) :
    IsEvaluation p (code p n) := by
  fun_induction Node.isSimpleLeaf n with
  | case1 info value => exact .literal value _
  | case2 info x => exact .symbolPath x
  | case3 info base components ih =>
    exact (ih leaf indices).swizzle (d := ⟨base, code p base⟩) components info
  | case4 info left right ih =>
    simp only [Node.hasConstantIndices, Bool.and_eq_true] at indices
    exact (ih leaf indices.1.1).elementPath (d := ⟨left, code p left⟩)
      (by simpa using indices.2) info
  | case5 info left right ih =>
    simp only [Node.hasConstantIndices, Bool.and_eq_true] at indices
    exact (ih leaf indices.1.1).memberPath (d := ⟨left, code p left⟩) right
  | case6 => cases leaf

theorem simple_isEvaluation {n : Node} (simple : n.isSimple) (indices : n.hasConstantIndices) :
    IsEvaluation p (code p n) := by
  rcases Bool.or_eq_true_iff.1 simple with leaf | operation
  · exact leaf_evaluates leaf indices
  obtain ⟨-, operation⟩ := Bool.and_eq_true_iff.1 operation
  split at operation
  case h_1 | h_2 | h_3 =>
    exact (leaf_evaluates operation indices).unaryOperation (d := ⟨_, code p _⟩) _ _
  · rename_i info op left right _
    simp only [Bool.and_eq_true] at operation
    simp only [Node.hasConstantIndices, Bool.and_eq_true] at indices
    have binary : code p (.binary info op left right) =
        binaryOperation p op ⟨left, code p left⟩ ⟨right, code p right⟩ info := by
      obtain ⟨⟨kind, -⟩, -⟩ := operation
      cases op <;> first | rfl | cases kind
    rw [binary]
    exact .binaryOperation (leaf_evaluates operation.1.2 indices.1.1)
      (leaf_evaluates operation.2 indices.1.2) op info
  · cases operation

/-- **Simple operands are straight-line code.** -/
theorem Codegen.simple_evaluates {n : Node} {s t : State} {v : Value} (simple : n.isSimple)
    (indices : n.hasConstantIndices) (ready : s.Ready p)
    (ends : Ends (Deferred.value p ⟨n, code p n⟩) s v t) :
    ReflTransGen (State.Evaluating p) s t ∧ t.builder.place = s.builder.place := by
  have steps :=
    (IsEvaluation.value (d := ⟨n, code p n⟩) (simple_isEvaluation simple indices)
    s v t ends ready).steps
  refine ⟨steps, ?_⟩
  clear ends
  induction steps with
  | refl => rfl
  | tail _ step ih => exact step.place.trans ih

/-- A local variable that holds a vector. -/
def Program.sidelong : Program where
  symbols := [{ name := "v", type := { basic := .int 32, vectorSize := 3 } }]

/-- A component of the vector, picked by a constant, and a number added to it. -/
def Node.sidestep : Node :=
  .binary { type := .int 32 } .add
    (.binary { type := .int 32 } .indexConstant
    (.symbol { type := { basic := .int 32, vectorSize := 3 } } 0)
      (.constant { type := .int 32 } (.int 1)))
    (.constant { type := .int 32 } (.int 2))

theorem Codegen.simple_evaluates_sidestep : ∃ (s t : State) (v : Value), s.Ready .sidelong ∧
    Ends (Deferred.value .sidelong ⟨.sidestep, code .sidelong .sidestep⟩) s v t ∧
    ReflTransGen (State.Evaluating .sidelong) s t ∧ t.builder.place = s.builder.place := by
  have run : ∃ u, Ends (do
      let _ ← (beginFunction 1 "main" 2 [] : Codegen (List Ident))
      let _ ← Deferred.value .sidelong ⟨.sidestep, code .sidelong .sidestep⟩)
        (Program.sidelong.initial {}) () u := ends_of_run' (by decide +kernel)
  obtain ⟨u, run⟩ := run
  obtain ⟨_, s, begins, run⟩ := ends_bind run
  obtain ⟨v, t, ends, -⟩ := ends_bind run
  have begun := build_proceeds (beginFunction_progress _ _ _ _) _ _ _ begins
    (State.regular_initial _ {})
  have ready : s.Ready .sidelong := by
    refine ⟨begun.regular (State.regular_initial _ {}), fun x d found isGlobal => ?_⟩
    cases x with
    | zero => cases found; cases isGlobal
    | succ x => cases found
  exact ⟨s, t, v, ready, ends, simple_evaluates rfl rfl ready ends⟩

end ShaderGen
