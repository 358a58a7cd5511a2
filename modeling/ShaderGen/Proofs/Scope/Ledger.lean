import Mathlib.Data.List.Basic
import ShaderGen.Builder.Narrow
import ShaderGen.Codegen.Node

/-!
# Which ids may be used where

An id may be used where the instruction that defines it has been executed on every way to the use:
anywhere if it is defined at module scope, all over its function if it is a parameter or a variable
of the function, and otherwise only in blocks that its definition dominates. While a module grows,
dominance is not there to be looked at, since branches to a block are still to come. A `Ledger`
stands in for it: it says for every label which ids will have been defined whenever the block is
entered, and it lists the ids that have been handed out before the instruction that defines them.

`Builder.Sound` says that a builder keeps to its ledger. `Follows` and `Grows` say how a builder and
its ledger change: both keep what holds all over the function, and `Grows` also keeps what holds at
the current place.
-/

namespace ShaderGen

open List

variable {b' : Builder} {parameter : Ident → Prop} {i : Instruction} {is : List Instruction}
  {α : Type} {x : Ident} {expected expected' : Ident → StorageClass → Prop}

/-! ## Ids that instructions define and use -/

/-- Instructions that begin, end or join blocks. -/
def Opcode.isControl : Opcode → Bool
  | .label | .branch | .branchConditional | .switch | .selectionMerge | .loopMerge | .phi | .ret
  | .returnValue | .kill | .unreachable | .terminateInvocation | .ignoreIntersectionKHR
  | .terminateRayKHR | .emitMeshTasksEXT => true
  | _ => false

/-- Cuts a list into pairs. A last element without a partner is taken twice. -/
def pairUp {α : Type} : List α → List (α × α)
  | a :: b :: rest => (a, b) :: pairUp rest
  | [a] => [(a, a)]
  | [] => []

namespace Operand

@[simp] theorem ids_nil : ids [] = [] := rfl

@[simp] theorem ids_append (os ps : List Operand) : ids (os ++ ps) = ids os ++ ids ps := by
  simp [ids]

@[simp] theorem ids_ref (x : Ident) (os : List Operand) : ids (.ref x :: os) = x :: ids os := rfl

@[simp] theorem ids_other {o : Operand} (h : ∀ x, o ≠ .ref x) (os : List Operand) :
    ids (o :: os) = ids os := by
  cases o with
  | ref x => exact absurd rfl (h x)
  | _ => rfl

@[simp] theorem ids_refs (xs : List Ident) : ids (refs xs) = xs := by
  induction xs with
  | nil => rfl
  | cons x rest ih => simpa [refs] using ih

@[simp] theorem ids_map_literal (ns : List Nat) : ids (ns.map .literal) = [] := by
  induction ns with
  | nil => rfl
  | cons n rest ih => simpa using ih

end Operand

namespace Instruction

/-- The ids that stand among the operands of an instruction. -/
def ids (i : Instruction) : List Ident := Operand.ids i.operands

/-- All ids that an instruction uses. -/
def refs (i : Instruction) : List Ident := i.type.toList ++ i.ids

/-- The ids that an instruction uses as types and values. What a joining instruction uses, it uses
at the end of other blocks. -/
def valueIds (i : Instruction) : List Ident :=
  i.type.toList ++
    match i.op with
    | .branch | .selectionMerge | .loopMerge | .phi => []
    | .branchConditional | .switch => i.ids.take 1
    | _ => i.ids

/-- The labels that an instruction names. -/
def labelIds (i : Instruction) : List Ident :=
  match i.op with
  | .branch | .selectionMerge | .loopMerge => i.ids
  | .branchConditional | .switch => i.ids.drop 1
  | .phi => (pairUp i.ids).map Prod.snd
  | _ => []

/-- The labels that control can go to from an instruction. -/
def targets (i : Instruction) : List Ident :=
  match i.op with
  | .branch => i.ids
  | .branchConditional | .switch => i.ids.drop 1
  | _ => []

/-- The values that a joining instruction takes, each with the block it takes it from. -/
def incoming (i : Instruction) : List (Ident × Ident) :=
  match i.op with
  | .phi => pairUp i.ids
  | _ => []

/-- The instruction is an array type of that length. -/
def IsLength (i : Instruction) (x : Ident) : Prop := i.op = .typeArray ∧ i.ids.getLast? = some x

/-- The id of the type was handed out before that of the result. -/
def TypeFirst (i : Instruction) : Prop := ∀ type id, i.type = some type → i.result = some id →
    type < id

end Instruction

/-- The ids that instructions define. -/
def results (is : List Instruction) : List Ident := is.filterMap Instruction.result

@[simp] theorem results_append (is js : List Instruction) :
    results (is ++ js) = results is ++ results js := by
  simp [results]

@[simp] theorem results_cons (i : Instruction) (is : List Instruction) :
    results (i :: is) = i.result.toList ++ results is := by
  cases h : i.result <;> simp [results, h]

@[simp] theorem results_nil : results [] = [] := rfl

/-- The ids that a block defines. -/
def Block.ids (b : Block) : List Ident := b.label :: results b.body

namespace Function

/-- The ids that a function defines. -/
def ids (f : Function) : List Ident :=
  f.id :: f.parameters.map Parameter.id ++ f.blocks.flatMap Block.ids

/-- The labels of the blocks of a function. -/
def labels (f : Function) : List Ident := f.blocks.map Block.label

/-- The ids that can be used all over a function: its parameters and the variables in front. -/
def fixedIds (f : Function) : List Ident :=
  f.parameters.map Parameter.id ++ (f.blocks.head?.map fun b => results b.body).getD []

end Function

namespace Module

/-- The ids that a module defines. -/
def ids (m : Module) : List Ident :=
  m.imports.map Prod.fst ++ results m.globals ++ m.functions.flatMap Function.ids

/-- The parameters of all functions. -/
def parameterIds (m : Module) : List Ident :=
  m.functions.flatMap fun f => f.parameters.map Parameter.id

/-- The ids that entry points and execution modes name. -/
def rootIds (m : Module) : List Ident :=
  m.entryPoints.flatMap (fun e => e.function :: e.interface) ++ m.executionModes.map Prod.fst

end Module

/-! ## Declarations in order -/

/-- Announces a pointer type. -/
def Instruction.announcement (x : Ident) (storage : StorageClass) : Instruction :=
  { op := .typeForwardPointer, operands := [.ref x, .storage storage] }

/-- Declares a pointer type. -/
def Instruction.pointerType (x : Ident) (storage : StorageClass) (pointee : Ident) : Instruction :=
  { op := .typePointer, result := some x, operands := [.storage storage, .ref pointee] }

/-- The pointer types that instructions announce. -/
def announcedIds (is : List Instruction) : List Ident :=
  is.flatMap fun i => if i.op = .typeForwardPointer then i.ids else []

/-- Every instruction uses what is defined or announced before it. Only the length of an array can
come from elsewhere: from a parameter. -/
def Arranged (parameter : Ident → Prop) (is : List Instruction) : Prop :=
  ∀ before i after, is = before ++ i :: after → ∀ x ∈ i.refs,
    x ∈ results before ∨ x ∈ announcedIds (before ++ [i]) ∨ (i.IsLength x ∧ parameter x)

/-- A pointer type that is announced is declared later, in the same storage class and for a
structure that is declared before that, unless it is still expected. -/
def Answered (expected : Ident → StorageClass → Prop) (is : List Instruction) : Prop :=
  ∀ before i after, is = before ++ i :: after → i.op = .typeForwardPointer →
    ∃ x storage, i = .announcement x storage ∧ (expected x storage ∨
      ∃ mid pointee rest, after = mid ++ .pointerType x storage pointee :: rest ∧
        ∃ k ∈ before ++ i :: mid, k.op = .typeStruct ∧ k.result = some pointee)

@[simp] theorem announcedIds_append (is js : List Instruction) :
    announcedIds (is ++ js) = announcedIds is ++ announcedIds js := by
  simp [announcedIds]

theorem append_singleton_eq_append_cons {list before after : List α} {a c : α}
    (h : list ++ [a] = before ++ c :: after) :
    (before = list ∧ c = a ∧ after = []) ∨ ∃ rest, after = rest ++ [a] ∧
    list = before ++ c :: rest := by
  rcases after.eq_nil_or_concat' with rfl | ⟨rest, d, rfl⟩
  · obtain ⟨rfl, rfl⟩ := append_singleton_inj.1 h
    exact .inl ⟨rfl, rfl, rfl⟩
  · rw [← cons_append, ← append_assoc] at h
    obtain ⟨rfl, rfl⟩ := append_singleton_inj.1 h
    exact .inr ⟨rest, rfl, rfl⟩

theorem Arranged.mono {parameter' : Ident → Prop} (h : Arranged parameter is)
    (hp : ∀ x, parameter x → parameter' x) : Arranged parameter' is :=
  fun before i after split x hx =>
    (h before i after split x hx).imp_right (Or.imp_right fun ⟨length, own⟩ => ⟨length, hp x own⟩)

theorem Arranged.push (h : Arranged parameter is) (hi : ∀ x ∈ i.refs, x ∈ results is ∨
      x ∈ announcedIds (is ++ [i]) ∨ (i.IsLength x ∧ parameter x)) :
    Arranged parameter (is ++ [i]) := by
  intro before c after split x hx
  rcases append_singleton_eq_append_cons split with ⟨rfl, rfl, -⟩ | ⟨rest, -, rfl⟩
  · exact hi x hx
  · exact h before c rest rfl x hx

theorem Answered.mono (h : Answered expected is)
    (he : ∀ x storage, expected x storage → expected' x storage) : Answered expected' is := by
  intro before i after split op
  obtain ⟨x, storage, same, answer⟩ := h before i after split op
  exact ⟨x, storage, same, answer.imp_left (he x storage)⟩

/-- One more declaration, after which only pointer types that it declares are no longer expected. -/
theorem Answered.push (h : Answered expected is)
    (he : ∀ x storage, expected x storage → expected' x storage ∨
      ∃ pointee, i = .pointerType x storage pointee ∧
        ∃ k ∈ is, k.op = .typeStruct ∧ k.result = some pointee)
    (hi : i.op = .typeForwardPointer → ∃ x storage, i = .announcement x storage ∧
      expected' x storage) : Answered expected' (is ++ [i]) := by
  intro before c after split op
  rcases append_singleton_eq_append_cons split with ⟨rfl, rfl, -⟩ | ⟨rest, rfl, rfl⟩
  · obtain ⟨x, storage, same, new⟩ := hi op
    exact ⟨x, storage, same, .inl new⟩
  · obtain ⟨x, storage, same, answer⟩ := h before c rest rfl op
    refine ⟨x, storage, same, ?_⟩
    rcases answer with waiting | ⟨mid, pointee, later, rfl, earlier⟩
    · rcases he x storage waiting with still | ⟨pointee, rfl, earlier⟩
      · exact .inl still
      · exact .inr ⟨rest, pointee, [], rfl, earlier⟩
    · exact .inr ⟨mid, pointee, later ++ [i], by simp, earlier⟩

theorem Answered.mem_results (h : Answered (fun _ _ => False) is)
    (hx : x ∈ announcedIds is) : x ∈ results is := by
  obtain ⟨i, hi, own⟩ := mem_flatMap.1 hx
  split at own
  · rename_i op
    obtain ⟨before, after, rfl⟩ := append_of_mem hi
    obtain ⟨y, storage, rfl, none | ⟨mid, pointee, rest, rfl, -⟩⟩ := h before i after rfl op
    · exact none.elim
    · obtain rfl : x = y := by simpa [Instruction.announcement, Instruction.ids] using own
      simp [Instruction.pointerType]
  · cases own

theorem Arranged.mem_results (h : Arranged parameter is) (answered : Answered (fun _ _ => False) is)
    (hi : i ∈ is) (hx : x ∈ i.refs) : x ∈ results is ∨ (i.IsLength x ∧ parameter x) := by
  obtain ⟨before, after, rfl⟩ := append_of_mem hi
  rcases h before i after rfl x hx with declared | announced | length
  · exact .inl (by simp [declared])
  · refine .inl (answered.mem_results ?_)
    rw [← singleton_append, ← append_assoc, announcedIds_append]
    exact mem_append_left _ announced
  · exact .inr length

/-! ## The ledger -/

/-- What an id has been handed out for. -/
inductive Role
  | label | function | pointer
  deriving DecidableEq

/-- What is known about the ids of a module under construction beyond the module itself. -/
structure Ledger where
  /-- Whether uses are watched at all; without it only the shape of the growth is. -/
  strict : Prop
  /-- Whether functions may use everything, so that only uses at module scope are watched. -/
  free : Prop
  /-- Whether no blocks may be begun. Only where uses are not watched does this say anything. -/
  straight : Prop
  program : Program
  /-- The ids that have been handed out but are not defined yet. -/
  owed : List (Ident × Role)
  /-- The ids that are defined whenever a block is entered, by its label. -/
  avail : Ident → Ident → Prop
  /-- The symbols that the function under construction uses. -/
  uses : SymbolId → Prop
  /-- The symbols that the functions begun so far use. -/
  seen : SymbolId → Prop
  /-- The symbols that are bound. -/
  bound : SymbolId → Prop
  /-- The structures that have had a type. -/
  typed : StructId → Prop
  /-- The structures that there is a pointer type for references to. -/
  referenced : StructId → Prop
  /-- The structures whose member types are being made. -/
  underway : StructId → Prop

/-- The types that a form refers to. -/
@[simp] def TypeForm.ids : TypeForm → List Ident
  | .vector component _ => [component]
  | .matrix column _ => [column]
  | .array element _ _ | .runtimeArray element _ => [element]
  | .struct members => members
  | .pointer _ pointee => pointee.toList
  | .image sampled _ => [sampled]
  | .sampledImage type => [type]
  | .void | .bool | .int _ _ | .float _ | .sampler | .accelerationStructure | .rayQuery
  | .function _ _ => []

namespace Builder

/-- The function under construction. -/
def current? (b : Builder) : Option Function :=
  if b.inFunction then b.output.functions.getLast? else none

/-- The functions that are complete. -/
def finished (b : Builder) : List Function :=
  if b.inFunction then b.output.functions.dropLast else b.output.functions

/-- The block that takes instructions. -/
def here? (b : Builder) : Option Block :=
  b.current?.bind fun f => b.block.bind fun k => f.blocks[k]?

/-- The ids that a builder remembers, so as to give them out again. -/
def remembered (b : Builder) : List Ident :=
  b.types.flatMap (fun t => t.2.ids) ++ b.pointerTypes.map Prod.snd ++ b.arrayTypes.map Prod.snd
    ++ b.runtimeArrayTypes.map Prod.snd ++ b.handleTypes.map Prod.snd ++ b.scalars.map Prod.snd
    ++ b.nulls.map Prod.snd ++ b.composites.map Prod.snd

/-- The types and constants that a builder can give out again: those it remembers, and those at
module scope. -/
def offered (b : Builder) : List Ident :=
  b.remembered ++ results b.output.globals

/-- What else a builder can give out again: instruction sets, and the variables that the entry point
lists. -/
def lent (b : Builder) : List Ident :=
  b.output.imports.map Prod.fst ++ b.interface

variable (l : Ledger) (b : Builder)

/-- Is declared at module scope, or announced there. -/
def Global (x : Ident) : Prop :=
  x ∈ results b.output.globals ∨ (x, .pointer) ∈ l.owed

/-- Can be used anywhere in the module. -/
def Shared (x : Ident) : Prop :=
  x ∈ b.output.imports.map Prod.fst ∨ x ∈ results b.output.globals ∨ (x, .pointer) ∈ l.owed ∨
    (x, .function) ∈ l.owed ∨ x ∈ b.output.functions.map Function.id ∨ l.free

/-- Is declared at module scope by an instruction of the kind. -/
def Declared (b : Builder) (op : Opcode) (x : Ident) : Prop :=
  ∃ i ∈ b.output.globals, i.op = op ∧ i.result = some x

/-- Can be used all over the function under construction. -/
def Fixed (x : Ident) : Prop :=
  b.Shared l x ∨ ∃ f, b.current? = some f ∧ x ∈ f.fixedIds

/-- Can be used at the current place. -/
def Known (x : Ident) : Prop :=
  b.Fixed l x ∨ ∃ here, b.here? = some here ∧ (l.avail here.label x ∨ x ∈ results here.body)

/-- Is the label of a block of the function under construction, or will be. -/
def IsLabel (x : Ident) : Prop :=
  (x, .label) ∈ l.owed ∨ ∃ f, b.current? = some f ∧ x ∈ f.labels

/-- Is defined, or will be. -/
def Placed (x : Ident) : Prop :=
  x ∈ l.owed.map Prod.fst ∨ x ∈ b.output.ids

end Builder

/-- Can be used in a block of a function, behind the given instructions. -/
def Function.Reaches (shared : Ident → Prop) (avail : Ident → Ident → Prop) (f : Function)
    (label : Ident) (before : List Instruction) (x : Ident) : Prop :=
  shared x ∨ x ∈ f.fixedIds ∨ avail label x ∨ x ∈ results before

/-- Can be used at the end of a block of the function under construction. -/
def Builder.Leaves (l : Ledger) (b : Builder) (label x : Ident) : Prop :=
  label < b.output.bound ∧ ∃ f block, b.current? = some f ∧ block ∈ f.blocks ∧
    block.label = label ∧ f.Reaches (b.Shared l) l.avail label block.body x

/-! ## Keeping to the ledger -/

/-- What an instruction has to keep to, where `known` can be used in front of it: it uses nothing
else, names only labels of its function, and enters only blocks that ask for nothing else. -/
structure Instruction.Checks (known : Ident → Prop) (avail : Ident → Ident → Prop)
    (isLabel : Ident → Prop) (i : Instruction) : Prop where
  values : ∀ x ∈ i.valueIds, known x
  labels : ∀ x ∈ i.labelIds, isLabel x
  targets : ∀ t ∈ i.targets, ∀ x, avail t x → known x

/-- What a function has to keep to. The block in front holds variables, which use nothing but types,
and since it is where control starts, it asks for nothing. -/
structure Function.Checks (shared : Ident → Prop) (avail : Ident → Ident → Prop)
    (isLabel : Ident → Prop) (f : Function) : Prop where
  start : ∀ block, f.blocks.head? = some block → ∀ x, avail block.label x → shared x
  front : ∀ block, f.blocks.head? = some block → ∀ i ∈ block.body, ∀ x ∈ i.valueIds, shared x
  body : ∀ (k : Nat) (block : Block), f.blocks[k]? = some block →
    ∀ before i after, block.body = before ++ i :: after →
      i.Checks (f.Reaches shared avail block.label before) avail isLabel
  joins : ∀ (k : Nat) (block : Block), f.blocks[k]? = some block →
    ∀ i ∈ block.body, ∀ q ∈ i.incoming, ∃ (j : Nat) (source : Block), f.blocks[j]? = some source ∧
      source.label = q.2 ∧ f.Reaches shared avail source.label source.body q.1

/-- Blocks ask for nothing that belongs to another function. -/
def Function.Asks (shared : Ident → Prop) (avail : Ident → Ident → Prop) (f : Function) : Prop :=
  ∀ t x, avail t x → shared x ∨ x ∈ f.ids

/-- What a builder says about ids, and remembers of them, is right. -/
structure Builder.Tables (l : Ledger) (b : Builder) : Prop where
  roots : ∀ x ∈ b.output.rootIds, b.Shared l x
  named : ∀ n ∈ b.output.names, b.Placed l n.target
  annotated : ∀ a ∈ b.output.annotations,
    b.Placed l a.target ∧ Operand.ids a.argument.toList = []
  remembered : ∀ x ∈ b.remembered, b.Global l x
  interface : ∀ x ∈ b.interface, b.Shared l x ∧ b.Placed l x
  announced : ∀ x storage, b.form? x = some (.pointer storage none) → (x, .pointer) ∈ l.owed

/-- The pointer type has been announced for the storage class, and is not declared yet. -/
def Builder.Expects (l : Ledger) (b : Builder) (x : Ident) (storage : StorageClass) : Prop :=
  (x, Role.pointer) ∈ l.owed ∧ ∀ c, b.form? x = some (.pointer c none) → c = storage

/-- What is declared at module scope is in order. -/
structure Builder.Orderly (l : Ledger) (b : Builder) : Prop where
  arranged : Arranged (· ∈ b.output.parameterIds) b.output.globals
  answered : Answered (b.Expects l) b.output.globals
  owed : ∀ x, (x, Role.pointer) ∈ l.owed → x ∈ announcedIds b.output.globals
  older : ∀ i ∈ b.output.globals, i.TypeFirst

variable {l : Ledger}

theorem Builder.Orderly.mono {l' : Ledger} {b : Builder} (h : b.Orderly l)
    (globals : b'.output.globals = b.output.globals)
    (parameters : ∀ x ∈ b.output.parameterIds, x ∈ b'.output.parameterIds)
    (pointers : ∀ x, (x, Role.pointer) ∈ l'.owed ↔ (x, Role.pointer) ∈ l.owed)
    (forms : ∀ x c, b'.form? x = some (.pointer c none) → b.form? x = some (.pointer c none)) :
    b'.Orderly l' where
  arranged := globals ▸ h.arranged.mono parameters
  answered := by
    rw [globals]
    exact h.answered.mono fun x storage ⟨owed, same⟩ =>
      ⟨(pointers x).2 owed, fun c hc => same c (forms x c hc)⟩
  owed x hx := globals ▸ h.owed x ((pointers x).1 hx)
  older := globals ▸ h.older

theorem Builder.Orderly.push {b : Builder} (h : b.Orderly l)
    (globals : b'.output.globals = b.output.globals ++ [i])
    (parameters : b'.output.parameterIds = b.output.parameterIds) (forms : b'.form? = b.form?)
    (plain : i.op ≠ .typeForwardPointer)
    (refs : ∀ x ∈ i.refs, b.Global l x ∨ (i.IsLength x ∧ x ∈ b.output.parameterIds))
    (older : i.TypeFirst) : b'.Orderly l where
  arranged := by
    rw [globals, parameters]
    refine h.arranged.push fun x hx => ?_
    rcases refs x hx with (declared | owed) | length
    · exact .inl declared
    · exact .inr (.inl (by simp [h.owed x owed]))
    · exact .inr (.inr length)
  answered := by
    rw [globals]
    refine h.answered.push (fun x storage waiting => .inl ⟨waiting.1, ?_⟩) fun op => absurd op plain
    rw [forms]
    exact waiting.2
  owed x hx := by
    rw [globals, announcedIds_append]
    exact mem_append_left _ (h.owed x hx)
  older := by
    rw [globals]
    exact forall_mem_append.2 ⟨h.older, forall_mem_singleton.2 older⟩

/-- What a builder has made keeps to its ledger, but for the order at module scope. -/
structure Builder.Scoped (l : Ledger) (b : Builder) : Prop extends b.Tables l where
  distinct : (l.owed.map Prod.fst ++ b.output.ids).Nodup
  below : ∀ x, b.Placed l x → x < b.output.bound
  heads : ∀ f ∈ b.output.functions,
    ∀ x ∈ f.returnType :: f.type :: f.parameters.map Parameter.type, b.Shared l x
  finished : ∀ f ∈ b.finished, ∃ avail, f.Checks (b.Shared l) avail (· ∈ f.labels) ∧
    f.Asks (b.Shared l) avail
  current : ∀ f, b.current? = some f → f.Checks (b.Shared l) l.avail (b.IsLabel l)
  asks : ∀ f, b.current? = some f → f.Asks (b.Shared l) l.avail
  here : ∀ k, b.block = some k →
    0 < k ∧ ∃ block, b.here? = some block ∧ b.currentBlock = some block.label
  front : ∀ f block, b.current? = some f → f.blocks.head? = some block →
    b.variablesBlock = some block.label

/-- A builder keeps to its ledger. -/
structure Builder.Sound (l : Ledger) (b : Builder) : Prop extends b.Scoped l where
  order : b.Orderly l

theorem Builder.Orderly.settled {b : Builder} (h : b.Orderly l) (owed : l.owed = []) :
    Answered (fun _ _ => False) b.output.globals :=
  h.answered.mono fun x _ waiting => by simp [Expects, owed] at waiting

/-! ## Changing the last function -/

@[simp] theorem modifyLast_append_singleton (g : α → α) (list : List α) (a : α) :
    modifyLast g (list ++ [a]) = list ++ [g a] := by
  induction list with
  | nil => rfl
  | cons c rest ih =>
    cases rest with
    | nil => rfl
    | cons d rest => simpa [modifyLast] using ih

theorem modifyLast_modifyLast (g h : α → α) (list : List α) :
    modifyLast g (modifyLast h list) = modifyLast (g ∘ h) list := by
  rcases list.eq_nil_or_concat' with rfl | ⟨front, a, rfl⟩ <;> simp [modifyLast]

theorem modifyLast_id (list : List α) : modifyLast id list = list := by
  rcases list.eq_nil_or_concat' with rfl | ⟨front, a, rfl⟩ <;> simp [modifyLast]

@[simp] theorem length_modifyLast (g : α → α) (list : List α) :
    (modifyLast g list).length = list.length := by
  rcases list.eq_nil_or_concat' with rfl | ⟨front, a, rfl⟩ <;> simp [modifyLast]

@[simp] theorem getLast?_modifyLast (g : α → α) (list : List α) :
    (modifyLast g list).getLast? = list.getLast?.map g := by
  rcases list.eq_nil_or_concat' with rfl | ⟨front, a, rfl⟩ <;> simp [modifyLast]

@[simp] theorem dropLast_modifyLast (g : α → α) (list : List α) :
    (modifyLast g list).dropLast = list.dropLast := by
  rcases list.eq_nil_or_concat' with rfl | ⟨front, a, rfl⟩ <;> simp [modifyLast]

@[simp] theorem Function.labels_pushTo (f : Function) (k : Nat) (i : Instruction) :
    (f.pushTo k i).labels = f.labels := by
  apply ext_getElem?
  intro j
  simp only [labels, pushTo, getElem?_map, getElem?_modify]
  cases f.blocks[j]? with
  | none => simp
  | some block => by_cases h : k = j <;> simp [h, Block.push]

/-! ## Growth -/

namespace Builder

/-- Where instructions go, where control stands, and the version that they are for. -/
structure Place where
  inFunction : Bool
  block : Option Nat
  currentBlock : Option Ident
  reachable : Bool
  deadBlocks : List Ident
  variablesBlock : Option Ident
  codeBlock : Option Ident
  version : Version

/-- Where instructions go, and where control stands. -/
def place (b : Builder) : Place :=
  { inFunction := b.inFunction, block := b.block, currentBlock := b.currentBlock
    reachable := b.reachable, deadBlocks := b.deadBlocks, variablesBlock := b.variablesBlock
    codeBlock := b.codeBlock, version := b.output.version }

/-- What every step of building keeps: the module only gets longer, and what can be used all over
the module, or all over the function, still can. -/
structure Follows (l : Ledger) (b : Builder) (l' : Ledger) (b' : Builder) : Prop where
  strict : l'.strict = l.strict
  free : l'.free = l.free
  straight : l'.straight = l.straight
  program : l'.program = l.program
  uses : l'.uses = l.uses
  seen : l'.seen = l.seen
  underway : l'.underway = l.underway
  symbols : l.strict → ∀ x, l.bound x → l'.bound x
  typed : l.strict → ∀ x, l.typed x → l'.typed x
  referenced : l.strict → ∀ x, l.referenced x → l'.referenced x
  version : b'.output.version = b.output.version
  inFunction : b'.inFunction = b.inFunction
  codeBlock : b'.codeBlock = b.codeBlock
  length : b'.output.functions.length = b.output.functions.length
  bound : b.output.bound ≤ b'.output.bound
  blocks : b.blockCount ≤ b'.blockCount
  quiet : l.straight → ¬ l.strict → b'.blockCount ≤ b.blockCount
  declared : ∀ i ∈ b.output.globals, i ∈ b'.output.globals
  global : l.strict → ∀ x, b.Global l x → b'.Global l' x
  shared : l.strict → ∀ x, b.Shared l x → b'.Shared l' x
  fixed : l.strict → ∀ x, b.Fixed l x → b'.Fixed l' x
  placed : l.strict → ∀ x, b.Placed l x → b'.Placed l' x
  parameters : l.strict → ∀ x ∈ b.output.parameterIds, x ∈ b'.output.parameterIds
  label : l.strict → ∀ x, b.IsLabel l x → b'.IsLabel l' x
  avail : l.strict → ∀ x < b.output.bound, l'.avail x = l.avail x
  leaves : l.strict → ∀ t x, b.Leaves l t x → b'.Leaves l' t x
  functions : l.strict → ∀ x, (x, Role.function) ∈ l'.owed ↔ (x, .function) ∈ l.owed

/-- What whole pieces of code keep: what could be used before can be used after, whatever blocks
have been begun in between, and no label is left without its block. -/
structure Grows (l : Ledger) (b : Builder) (l' : Ledger) (b' : Builder) : Prop
    extends Follows l b l' b' where
  known : l.strict → ∀ x, b.Known l x → b'.Known l' x
  owed : l.strict → ∀ x, (x, Role.label) ∈ l'.owed ↔ (x, .label) ∈ l.owed
  opened : b'.block.isSome = b.block.isSome

theorem Follows.refl (l : Ledger) (b : Builder) : Follows l b l b where
  strict := rfl
  free := rfl
  straight := rfl
  program := rfl
  uses := rfl
  seen := rfl
  underway := rfl
  symbols := fun _ _ => id
  typed := fun _ _ => id
  referenced := fun _ _ => id
  version := rfl
  inFunction := rfl
  codeBlock := rfl
  length := rfl
  bound := Nat.le_refl _
  blocks := Nat.le_refl _
  quiet := fun _ _ => Nat.le_refl _
  declared := fun _ => id
  global := fun _ _ => id
  shared := fun _ _ => id
  fixed := fun _ _ => id
  placed := fun _ _ => id
  parameters := fun _ _ => id
  label := fun _ _ => id
  avail := fun _ _ _ => rfl
  leaves := fun _ _ _ => id
  functions := fun _ _ => Iff.rfl

theorem Follows.trans {l1 l2 l3 : Ledger} {b1 b2 b3 : Builder} (h : Follows l1 b1 l2 b2)
    (g : Follows l2 b2 l3 b3) : Follows l1 b1 l3 b3 := by
  have strict : l1.strict → l2.strict := fun hs => h.strict ▸ hs
  exact {
    strict := g.strict.trans h.strict
    free := g.free.trans h.free
    straight := g.straight.trans h.straight
    program := g.program.trans h.program
    uses := g.uses.trans h.uses
    seen := g.seen.trans h.seen
    underway := g.underway.trans h.underway
    symbols := fun hs x hx => g.symbols (strict hs) x (h.symbols hs x hx)
    typed := fun hs x hx => g.typed (strict hs) x (h.typed hs x hx)
    referenced := fun hs x hx => g.referenced (strict hs) x (h.referenced hs x hx)
    version := g.version.trans h.version
    inFunction := g.inFunction.trans h.inFunction
    codeBlock := g.codeBlock.trans h.codeBlock
    length := g.length.trans h.length
    bound := Nat.le_trans h.bound g.bound
    blocks := Nat.le_trans h.blocks g.blocks
    quiet := fun straight lax => Nat.le_trans
      (g.quiet (h.straight ▸ straight) (h.strict ▸ lax)) (h.quiet straight lax)
    declared := fun i hi => g.declared i (h.declared i hi)
    global := fun hs x hx => g.global (strict hs) x (h.global hs x hx)
    shared := fun hs x hx => g.shared (strict hs) x (h.shared hs x hx)
    fixed := fun hs x hx => g.fixed (strict hs) x (h.fixed hs x hx)
    placed := fun hs x hx => g.placed (strict hs) x (h.placed hs x hx)
    parameters := fun hs x hx => g.parameters (strict hs) x (h.parameters hs x hx)
    label := fun hs x hx => g.label (strict hs) x (h.label hs x hx)
    avail := fun hs x hx =>
      (g.avail (strict hs) x (Nat.lt_of_lt_of_le hx h.bound)).trans (h.avail hs x hx)
    leaves := fun hs t x ht => g.leaves (strict hs) t x (h.leaves hs t x ht)
    functions := fun hs x => (g.functions (strict hs) x).trans (h.functions hs x) }

theorem Follows.isSome_current? {l' : Ledger} {b : Builder} (h : Follows l b l' b')
    (inside : b.current?.isSome) : b'.current?.isSome := by
  unfold current? at inside ⊢
  rw [h.inFunction]
  split at inside
  · have nonempty : b.output.functions ≠ [] := by simpa using inside
    have nonempty' : b'.output.functions ≠ [] := by
      rw [← length_pos_iff, h.length]
      exact length_pos_iff.2 nonempty
    simp [*]
  · cases inside

theorem Grows.refl (l : Ledger) (b : Builder) : Grows l b l b where
  toFollows := .refl l b
  known := fun _ _ => id
  owed := fun _ _ => Iff.rfl
  opened := rfl

theorem Grows.trans {l1 l2 l3 : Ledger} {b1 b2 b3 : Builder} (h : Grows l1 b1 l2 b2)
    (g : Grows l2 b2 l3 b3) : Grows l1 b1 l3 b3 where
  toFollows := h.toFollows.trans g.toFollows
  known := fun hs x hx => g.known (h.strict ▸ hs) x (h.known hs x hx)
  owed := fun hs x => (g.owed (h.strict ▸ hs) x).trans (h.owed hs x)
  opened := g.opened.trans h.opened

end Builder

end ShaderGen
