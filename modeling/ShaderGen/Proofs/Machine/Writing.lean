import ShaderGen.Proofs.Machine.Datum
import ShaderGen.Proofs.Scope.Code
import ShaderGen.Proofs.Typing.Building

/-!
# The code that a step writes

`Builder.Writes k code b b'` says that the step from `b` to `b'` appends `code` to block `k` of the
function under construction, and otherwise only declares types and constants. New declarations get
new ids (`Builder.Enters`), and so do the results of the code, so that code never touches a
constant.

A machine fits a builder if the constants of the module have their values. `Succeeds` is the rule of
proof for building steps: the step ends, and what it has written has a certain property. Facts about
several pieces of code are put together by `run_append`, `Writes.fits` and `Writes.values`.
-/

namespace ShaderGen

open List
open Steps (Ends)

variable {i : Instruction} {k : Nat} {x : Ident}

/-- A function with more code in a block. -/
def Function.pushAll (f : Function) (k : Nat) (code : List Instruction) : Function :=
  code.foldl (fun f i => f.pushTo k i) f

namespace Builder

variable {b b' b1 b2 : Builder} {make : Emit Ident} {code : List Instruction}

/-! ## New declarations -/

/-- Declarations are added under new ids. -/
structure Enters (b b' : Builder) : Prop where
  bound : b.output.bound ≤ b'.output.bound
  kept : b.output.globals ⊆ b'.output.globals
  fresh : ∀ x ∈ results b'.output.globals, x ∈ results b.output.globals ∨ b.output.bound ≤ x

theorem Enters.of_same (bound : b.output.bound ≤ b'.output.bound)
    (globals : b'.output.globals = b.output.globals) : b.Enters b' := by
  refine ⟨bound, ?_, ?_⟩
  · rw [globals]
    exact fun _ mem => mem
  · rw [globals]
    exact fun x mem => .inl mem

instance : IsPreorder Builder Enters where
  refl b := .of_same (Nat.le_refl _) rfl
  trans b1 b2 b3 h g := by
    refine ⟨Nat.le_trans h.bound g.bound, fun i mem => g.kept (h.kept mem), fun x mem => ?_⟩
    rcases g.fresh x mem with old | new
    · exact h.fresh x old
    · exact .inr (Nat.le_trans h.bound new)

theorem enters_globalPushed (b : Builder) (h : i.result = some b.output.bound) :
    b.Enters (b.globalPushed i) := by
  refine ⟨Nat.le_succ _, fun _ mem => mem_append_left _ mem, fun x mem => ?_⟩
  rw [globalPushed, results_append, mem_append] at mem
  rcases mem with old | new
  · exact .inl old
  · have same : x = b.output.bound := by simpa [h] using new
    exact .inr (Nat.le_of_eq same.symm)

theorem enters_alter {f : Builder → Builder} (h : ∀ b, (f b).output = b.output) :
    Relates Enters (modify f : Emit PUnit) :=
  .alter fun b => .of_same (Nat.le_of_eq (by rw [h b])) (by rw [h b])

variable (op : Opcode) (operands : List Operand)

theorem sharedType_enters :
    Relates Enters (sharedType op operands) := by
  refine .bind .getEmit fun b => ?_
  split
  · exact .pure
  · intro b id b' ends
    cases ends
    exact enters_globalPushed b rfl

theorem recorded_enters (h : Relates Enters make) (form : TypeForm) : Relates Enters (do
      let id ← make
      record id form
      return id : Emit Ident) :=
  .bind h fun _ => .bind (enters_alter fun b => by split <;> rfl) fun _ => .pure

theorem cached_enters {κ : Type} [BEq κ] {key : κ}
    (table : Builder → List (κ × Ident)) (h : Relates Enters make) : Relates Enters (do
      match (table (← get)).lookup key with
      | some id => return id
      | none => make : Emit Ident) := by
  refine .bind .getEmit fun b => ?_
  split
  · exact .pure
  · exact h

theorem typeBool_enters : Relates Enters typeBool := recorded_enters (sharedType_enters _ _) _

theorem declareConstant_enters (type : Ident) (operands : List Operand) :
    Relates Enters (declareConstant op type operands) := fun b id b' ends => by
  cases ends
  exact enters_globalPushed b rfl

theorem constBool_enters (value : Bool) : Relates Enters (constBool value) :=
  .bind typeBool_enters fun _ => cached_enters scalars
  (.bind (declareConstant_enters _ _ _) fun _ =>
    .bind (enters_alter fun _ => rfl) fun _ => .pure)

variable (type : Ident)

theorem constBits_enters (bits : Nat) : Relates Enters (constBits type bits) :=
  cached_enters scalars (.bind .getEmit fun _ => .bind (declareConstant_enters _ _ _) fun _ =>
    .bind (enters_alter fun _ => rfl) fun _ => .pure)

theorem constComposite_enters (parts : List Ident) :
    Relates Enters (constComposite type parts) :=
  cached_enters composites (.bind (declareConstant_enters _ _ _) fun _ =>
    .bind (enters_alter fun _ => rfl) fun _ => .pure)

theorem constNumber_enters (value : Nat) : Relates Enters (constNumber type value) := by
  refine .bind .getEmit fun b => ?_
  split
  · exact constBits_enters _ _
  · exact constBool_enters _
  · exact constBits_enters _ _

theorem constFilledWithin_enters (depth : Nat) (type : Ident) (value : Nat) :
    Relates Enters (constFilledWithin depth type value) := by
  induction depth generalizing type with
  | zero => exact constNumber_enters type value
  | succ depth ih =>
    refine .bind .getEmit fun b => ?_
    split
    · exact .bind (ih _) fun _ => constComposite_enters _ _
    · exact constNumber_enters _ _

theorem constFilled_enters (value : Nat) : Relates Enters (constFilled type value) :=
  .bind .getEmit fun _ => constFilledWithin_enters _ type value

/-! ## Code -/

/-- Instructions go to block `k` of the function under construction. -/
structure Takes (k : Nat) (b : Builder) : Prop where
  tidy : b.Tidy
  inside : b.inFunction = true
  block : b.block = some k

/-- The code is appended to block `k`, and otherwise types and constants are declared. -/
structure Writes (k : Nat) (code : List Instruction) (b b' : Builder) : Prop where
  takes : b'.Takes k
  later : b.Later b'
  enters : b.Enters b'
  functions : b'.output.functions = modifyLast (·.pushAll k code) b.output.functions
  /-- The results of the code are new, and they are not those of declarations. -/
  ids : ∀ x ∈ results code, b.output.bound ≤ x ∧ x < b'.output.bound ∧ x ∉ results b'.output.globals

theorem Writes.refl (takes : b.Takes k) : b.Writes k [] b where
  takes := takes
  later := .refl b
  enters := refl_of Enters b
  functions := (modifyLast_id _).symm
  ids := by simp

theorem Writes.trans {code' : List Instruction} (h : b.Writes k code b1)
    (g : b1.Writes k code' b2) : b.Writes k (code ++ code') b2 where
  takes := g.takes
  later := h.later.trans g.later
  enters := trans_of Enters h.enters g.enters
  functions := by
    rw [g.functions, h.functions, modifyLast_modifyLast]
    simp only [Function.pushAll, foldl_append]
    rfl
  ids x mem := by
    rw [results_append, mem_append] at mem
    rcases mem with first | second
    · obtain ⟨above, below, apart⟩ := h.ids x first
      refine ⟨above, Nat.lt_of_lt_of_le below g.enters.bound, fun global => ?_⟩
      rcases g.enters.fresh x global with old | new
      · exact apart old
      · exact Nat.not_lt.2 new below
    · obtain ⟨above, below, apart⟩ := g.ids x second
      exact ⟨Nat.le_trans h.enters.bound above, below, apart⟩

theorem Writes.apart (h : b.Writes k code b') (g : b'.Enters b1)
    (global : x ∈ results b1.output.globals) : x ∉ results code := by
  intro mem
  obtain ⟨-, below, apart⟩ := h.ids x mem
  rcases g.fresh x global with old | new
  · exact apart old
  · exact Nat.not_lt.2 new below

theorem writes_nil (takes : b.Takes k) (progress : b.Progress b') (enters : b.Enters b')
    (code : b.SameCode b') : b.Writes k [] b' where
  takes := ⟨(progress takes.tidy).1, code.inFunction.trans takes.inside,
    code.block.trans takes.block⟩
  later := (progress takes.tidy).2
  enters := enters
  functions := code.functions.trans (modifyLast_id _).symm
  ids := by simp

theorem writes_pushed (takes : b.Takes k) {bound : Ident} (above : b.output.bound ≤ bound)
    (result : ∀ x, i.result = some x → b.output.bound ≤ x ∧ x < bound) :
    b.Writes k [i] (b.pushed k i bound) where
  takes := by
    have calm : b.Calm (b.pushed k i bound) := .of_output b above rfl
    exact ⟨calm.tidy takes.tidy, takes.inside, takes.block⟩
  later := Calm.later (.of_output b above rfl)
  enters := .of_same above rfl
  functions := rfl
  ids x mem := by
    have isResult : i.result = some x := by simpa [Option.mem_def] using mem
    obtain ⟨new, below⟩ := result x isResult
    refine ⟨new, below, fun global => ?_⟩
    obtain ⟨j, declared, same⟩ := mem_filterMap.1 global
    exact Nat.not_lt.2 new (takes.tidy.distinct.below j declared x same)

end Builder

/-! ## Machines and constants -/

namespace Machine

variable {m m' : Machine} {b b' F : Builder} {k : Nat} {code : List Instruction}

/-- The constants of the module that are made of ids at module scope have their values. -/
def Fits (m : Machine) (b : Builder) : Prop :=
  ∀ i ∈ b.output.globals, ∀ type id v, i.type = some type → i.result = some id →
    (∀ x ∈ i.ids, x ∈ results b.output.globals) → i.constant? m = some v →
    m.values id = some ⟨type, v⟩

theorem Fits.mono (h : m.Fits F) (enters : b.Enters F) : m.Fits b := by
  have globals : ∀ x ∈ results b.output.globals, x ∈ results F.output.globals := by
    intro x mem
    obtain ⟨i, declared, result⟩ := mem_filterMap.1 mem
    exact mem_filterMap.2 ⟨i, enters.kept declared, result⟩
  intro i mem type id v hasType result inner value
  exact h i (enters.kept mem) type id v hasType result (fun x hx => globals x (inner x hx)) value

theorem mapM_read_congr {ids : List Ident} (same : ∀ x ∈ ids, m'.read x = m.read x) :
    ids.mapM m'.read = ids.mapM m.read := by
  induction ids with
  | nil => rfl
  | cons x rest ih =>
    rw [mapM_cons, mapM_cons, same x mem_cons_self, ih fun y mem => same y (mem_cons_of_mem x mem)]

theorem constant?_congr (same : ∀ x ∈ i.ids, m'.read x = m.read x) :
    i.constant? m' = i.constant? m := by
  unfold Instruction.constant?
  split
  · rfl
  · rfl
  · rfl
  · rfl
  · exact congrArg _ (mapM_read_congr same)
  · rfl

end Machine

namespace Builder.Writes

variable {m m' : Machine} {b b' F : Builder} {k : Nat} {code : List Instruction}

theorem values (h : b.Writes k code b') (done : run code m = some m')
    (old : x < b.output.bound) : m'.values x = m.values x :=
  values_of_run done fun mem => Nat.not_lt.2 (h.ids x mem).1 old

theorem fits (h : b.Writes k code b') (done : run code m = some m') (enters : b'.Enters F)
    (fits : m.Fits F) : m'.Fits F := by
  have same : ∀ x ∈ results F.output.globals, m'.values x = m.values x :=
    fun x global => values_of_run done (h.apart enters global)
  intro i mem type id v hasType result inner value
  have global : id ∈ results F.output.globals := mem_filterMap.2 ⟨i, mem, result⟩
  rw [same id global]
  refine fits i mem type id v hasType result inner ?_
  rw [← value]
  exact (Machine.constant?_congr fun x hx => by
    rw [Machine.read, Machine.read, same x (inner x hx)]).symm

end Builder.Writes

/-! ## Building steps that succeed -/

/-- The step succeeds, and the condition holds of its result, of the code it writes and of the
builder afterwards. -/
def Succeeds (k : Nat) (b : Builder) {α : Type} (c : Build α)
    (post : α → List Instruction → Builder → Prop) : Prop :=
  ∃ a code b', Ends c b a b' ∧ b.Writes k code b' ∧ post a code b'

namespace Succeeds

variable {α β : Type} {k : Nat} {b : Builder}

theorem pure (takes : b.Takes k) {a : α} {post : α → List Instruction → Builder → Prop}
    (h : post a [] b) : Succeeds k b (Pure.pure a) post :=
  ⟨a, [], b, rfl, .refl takes, h⟩

theorem mono {c : Build α} {post post' : α → List Instruction → Builder → Prop}
    (h : Succeeds k b c post) (imp : ∀ a code b', b.Writes k code b' → post a code b' →
      post' a code b') :
    Succeeds k b c post' := by
  obtain ⟨a, code, b', ends, writes, holds⟩ := h
  exact ⟨a, code, b', ends, writes, imp a code b' writes holds⟩

theorem bind {x : Build α} {f : α → Build β} {mid : α → List Instruction → Builder → Prop}
    {post : β → List Instruction → Builder → Prop} (hx : Succeeds k b x mid)
    (hf : ∀ a code b1, b.Writes k code b1 → mid a code b1 →
      Succeeds k b1 (f a) fun r code' b2 => post r (code ++ code') b2) :
    Succeeds k b (x >>= f) post := by
  obtain ⟨a, code, b1, first, writes, holds⟩ := hx
  obtain ⟨r, code', b2, second, writes', holds'⟩ := hf a code b1 writes holds
  exact ⟨r, code ++ code', b2, Steps.bind_ends first second, writes.trans writes', holds'⟩

theorem get {f : Builder → Build β} {post : β → List Instruction → Builder → Prop}
    (hf : Succeeds k b (f b) post) : Succeeds k b (MonadState.get >>= f) post := by
  obtain ⟨r, code, b', ends, rest⟩ := hf
  exact ⟨r, code, b', ends, rest⟩

theorem emit (takes : b.Takes k) (op : Opcode) (type : Ident) (operands : List Operand) :
    Succeeds k b (Builder.emit op type operands) fun id code b' => id = b.output.bound ∧
      id < b'.output.bound ∧ code = [{ op, type := some type, result := some id, operands }] := by
  let i : Instruction := { op, type := some type, result := some b.output.bound, operands }
  refine ⟨b.output.bound, [i], b.pushed k i (b.output.bound + 1), ?_, ?_, rfl,
    Nat.lt_succ_self _, rfl⟩
  · have placed := Builder.append_ends (b := { b with output.bound := b.output.bound + 1 })
      takes.inside takes.block i
    exact Steps.bind_ends rfl (Steps.bind_ends placed rfl)
  · refine Builder.writes_pushed takes (Nat.le_succ _) fun x result => ?_
    obtain rfl := Option.some.inj result
    exact ⟨Nat.le_refl _, Nat.lt_succ_self _⟩

end Succeeds

end ShaderGen
