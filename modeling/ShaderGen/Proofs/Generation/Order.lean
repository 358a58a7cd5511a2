import Mathlib.Data.List.Flatten
import ShaderGen.Codegen.Node

/-!
# The order of calls

`Node.callOrder` lists the functions that a node calls in the order of evaluation: operands from
left to right, the left side of an assignment before the right one, arguments before their call, a
condition before what depends on it, and the test of a loop where it stands. A node is complete if
all its parts have a place in the code for it; in the body of a switch, only statements in front of
all labels have none.
-/

namespace ShaderGen

open List

variable {nodes : List Node} {n : Node}

/-! ## Calls in the source -/

mutual

/-- The functions that a node calls, in the order of evaluation. -/
def Node.callOrder : Node → List FunctionId
  | .symbol .. | .constant .. => []
  | .binary _ _ left right => left.callOrder ++ right.callOrder
  | .unary _ _ operand => operand.callOrder
  | .swizzle _ base _ => base.callOrder
  | .sequence _ nodes | .construct _ nodes | .intrinsic _ _ nodes => callOrders nodes
  | .call _ function arguments => callOrders arguments ++ [function]
  | .select _ condition thenBranch elseBranch _ _ =>
    condition.callOrder ++ (optionalCallOrder thenBranch ++ optionalCallOrder elseBranch)
  | .switch _ selector body _ => selector.callOrder ++ callOrders body
  | .loop _ test body terminal testFirst _ =>
    let round := optionalCallOrder body ++ optionalCallOrder terminal
    if testFirst then optionalCallOrder test ++ round else round ++ optionalCallOrder test
  | .jump _ _ value | .declare _ _ value => optionalCallOrder value
termination_by structural n => n

/-- The calls of several nodes. -/
def callOrders : List Node → List FunctionId
  | [] => []
  | n :: rest => n.callOrder ++ callOrders rest
termination_by structural ns => ns

/-- The calls of a node that may be absent. -/
def optionalCallOrder : Option Node → List FunctionId
  | none => []
  | some n => n.callOrder
termination_by structural n => n

end

theorem callOrders_eq (nodes : List Node) : callOrders nodes = nodes.flatMap Node.callOrder := by
  induction nodes with
  | nil => rfl
  | cons n rest ih => rw [callOrders, flatMap_cons, ih]

/-- The statements that the code of a function starts with. -/
def Program.prelude (p : Program) (f : FunctionId) : List Node :=
  if f = p.entry then p.initializers else []

/-! ## Complete nodes -/

/-- How many arguments a constructor of a type takes, where the type says so. Arrays, vectors and
matrices are made of however many arguments there are, and other opaque types of two. -/
def Program.constructorArity? (p : Program) (t : ShaderType) : Option Nat :=
  if t.isArray || t.isMatrix || t.isOpaque then none
  else
    match t.structId? with
    | some id => (p.struct? id).map fun s => (s.members.filter p.hasMember).length
    | none => if t.isVector then none else some 1

/-- The intrinsic functions that have no parameters and do nothing but wait or end something. -/
def Intrinsic.takesNothing (op : Intrinsic) : Bool :=
  match op.strategy with
  | .barrier | .primitive _ => true
  | _ => op == .subgroupBarrier

/-- Whether a symbol is bound to a constant. -/
def Symbol.isConstant (s : Symbol) : Bool :=
  s.type.qualifier.specConstant || (s.type.qualifier.storage == .constant && s.value.isSome)

mutual

/-- All parts of the node have a place in the code for it. -/
def Node.Complete (p : Program) : Node → Prop
  | .symbol .. | .constant .. => True
  | .binary _ _ left right => left.Complete p ∧ right.Complete p
  | .unary _ op operand => op ≠ .arrayLength ∧ operand.Complete p
  | .swizzle _ base _ => base.Complete p
  | .sequence _ nodes | .call _ _ nodes => AllComplete p nodes
  | .construct info arguments =>
    (∀ n, p.constructorArity? info.type = some n → arguments.length = n) ∧ AllComplete p arguments
  | .intrinsic _ op arguments => (op.takesNothing → arguments = []) ∧ AllComplete p arguments
  | .select _ condition thenBranch elseBranch _ _ =>
    condition.Complete p ∧ OptionalComplete p thenBranch ∧ OptionalComplete p elseBranch
  | .switch _ selector body _ =>
    selector.Complete p ∧ (∀ n ∈ body.head?, n.label?.isSome) ∧ AllComplete p body
  | .loop _ test body terminal _ _ =>
    OptionalComplete p test ∧ OptionalComplete p body ∧ OptionalComplete p terminal
  | .jump _ kind value => (kind ≠ .ret → value = none) ∧ OptionalComplete p value
  | .declare _ x init =>
    (∀ s, p.symbol? x = some s → s.isConstant → init = none) ∧ OptionalComplete p init
termination_by structural n => n

/-- All of the nodes are complete. -/
def AllComplete (p : Program) : List Node → Prop
  | [] => True
  | n :: rest => n.Complete p ∧ AllComplete p rest
termination_by structural ns => ns

/-- The node is complete if it is there. -/
def OptionalComplete (p : Program) : Option Node → Prop
  | none => True
  | some n => n.Complete p
termination_by structural n => n

end

theorem AllComplete.of_mem {p : Program} (h : AllComplete p nodes) (mem : n ∈ nodes) :
    n.Complete p := by
  induction nodes with
  | nil => cases mem
  | cons first rest ih =>
    rcases mem_cons.1 mem with rfl | mem
    · exact h.1
    · exact ih h.2 mem

theorem AllComplete.of_append {p : Program} {first second : List Node}
    (h : AllComplete p (first ++ second)) : AllComplete p first ∧ AllComplete p second := by
  induction first with
  | nil => exact ⟨trivial, h⟩
  | cons n rest ih =>
    obtain ⟨left, right⟩ := ih h.2
    exact ⟨⟨h.1, left⟩, right⟩

/-! ## Groups of a switch -/

namespace CaseGroup

variable {α : Type}

/-- The groups of the rest of the body of a switch, when it is in the middle of one. -/
def groupsFrom (label? : α → Option Jump) : CaseGroup α → List α → List (CaseGroup α)
  | g, [] => [g]
  | g, a :: rest =>
    match label? a with
    | some l =>
      if g.statements.isEmpty then groupsFrom label? { g with labels := g.labels ++ [l] } rest
      else g :: groupsFrom label? { labels := [l] } rest
    | none => groupsFrom label? { g with statements := g.statements ++ [a] } rest

theorem foldl_add (label? : α → Option Jump) (rest : List α) (g : CaseGroup α)
    (before : List (CaseGroup α)) :
    rest.foldl (add label?) (g :: before) = (groupsFrom label? g rest).reverse ++ before := by
  induction rest generalizing g before with
  | nil => rfl
  | cons a rest ih =>
    simp only [foldl_cons, groupsFrom, add]
    cases label? a with
    | none => exact ih _ _
    | some l =>
      dsimp only
      split
      · exact ih _ _
      · simpa using ih _ _

theorem caseGroups_cons (label? : α → Option Jump) (a : α) (rest : List α) :
    caseGroups label? (a :: rest) =
      match label? a with
      | some l => groupsFrom label? { labels := [l] } rest
      | none => caseGroups label? rest := by
  simp only [caseGroups, foldl_cons, add]
  cases label? a with
  | none => rfl
  | some l => simp [foldl_add]

theorem statements_groupsFrom (label? : α → Option Jump) (g : CaseGroup α) (rest : List α) :
    (groupsFrom label? g rest).flatMap statements =
      g.statements ++ rest.filter fun a => (label? a).isNone := by
  induction rest generalizing g with
  | nil => simp [groupsFrom]
  | cons a rest ih =>
    rw [groupsFrom]
    cases label : label? a with
    | none => simp [ih, label]
    | some l =>
      dsimp only
      split
      · simp [ih, label]
      · simp [ih, label]

theorem statements_caseGroups_sublist (label? : α → Option Jump) (body : List α) :
    ((caseGroups label? body).flatMap statements).Sublist body := by
  induction body with
  | nil => simp [caseGroups]
  | cons a rest ih =>
    rw [caseGroups_cons]
    split
    · rw [statements_groupsFrom]
      exact (filter_sublist).cons a
    · exact ih.cons a

theorem statements_caseGroups {label? : α → Option Jump} {body : List α}
    (labelled : ∀ a ∈ body.head?, (label? a).isSome) : (caseGroups label? body).flatMap statements =
      body.filter fun a => (label? a).isNone := by
  cases body with
  | nil => rfl
  | cons a rest =>
    obtain ⟨l, label⟩ := Option.isSome_iff_exists.1 (labelled a rfl)
    simp [caseGroups_cons, statements_groupsFrom, label]

theorem mem_of_mem_caseGroups {label? : α → Option Jump} {body : List α} {g : CaseGroup α}
    (hg : g ∈ caseGroups label? body) {a : α} (ha : a ∈ g.statements) : a ∈ body :=
  (statements_caseGroups_sublist label? body).subset (mem_flatMap.2 ⟨g, hg, ha⟩)

end CaseGroup

/-! ## Operands -/

/-- What several operands call. -/
def deferredOrder (arguments : List Deferred) : List FunctionId :=
  arguments.flatMap fun d => d.node.callOrder

@[simp] theorem deferredOrder_singleton (d : Deferred) : deferredOrder [d] = d.node.callOrder := by
  simp [deferredOrder]

/-- What an operand that may be absent calls. -/
def optionalOrder (d : Option Deferred) : List FunctionId := d.elim [] fun d => d.node.callOrder

namespace Codegen

variable {p : Program} {arguments : List Deferred}

theorem deferAll_eq_map (p : Program) (nodes : List Node) :
    deferAll p nodes = nodes.map fun n => ⟨n, code p n⟩ := by
  induction nodes with
  | nil => rfl
  | cons n nodes ih => rw [deferAll, ih, map_cons]

theorem deferredOrder_deferAll (nodes : List Node) :
    deferredOrder (deferAll p nodes) = callOrders nodes := by
  rw [deferAll_eq_map, deferredOrder, flatMap_map, callOrders_eq]

theorem optionalOrder_deferOption (n : Option Node) :
    optionalOrder (deferOption p n) = optionalCallOrder n := by
  cases n <;> rfl

theorem head_deferAll (h : ∀ n ∈ nodes.head?, n.label?.isSome) :
    ∀ d ∈ (deferAll p nodes).head?, d.node.label?.isSome := by
  cases nodes with
  | nil => nofun
  | cons n rest =>
    rintro d ⟨⟩
    exact h n rfl

theorem length_deferAll : (deferAll p nodes).length = nodes.length := by
  rw [deferAll_eq_map, length_map]

section Arguments

variable {α : Type} {list : List α} {argument : α → Deferred}

theorem order_sublist (h : (list.map argument).Sublist arguments) :
    (list.flatMap fun a => (argument a).node.callOrder).Sublist (deferredOrder arguments) := by
  rw [← flatMap_map argument fun d => d.node.callOrder]
  exact h.flatMap _

theorem order_eq (h : list.map argument = arguments) :
    (list.flatMap fun a => (argument a).node.callOrder) = deferredOrder arguments := by
  rw [← flatMap_map argument fun d => d.node.callOrder, h, deferredOrder]

theorem map_fst_zip_sublist {β : Type} (others : List β) :
    ((list.zip others).map Prod.fst).Sublist list := by
  rw [zip_eq_zip_take_min, map_fst_zip (by simp)]
  exact take_sublist _ _

end Arguments

theorem order_filter {keep : Deferred → Bool}
    (nothing : ∀ d ∈ arguments, ¬ keep d → d.node.callOrder = []) :
    deferredOrder (arguments.filter keep) = deferredOrder arguments := by
  induction arguments with
  | nil => rfl
  | cons d rest ih =>
    have others := ih fun d' mem => nothing d' (mem_cons_of_mem d mem)
    cases kept : keep d with
    | true => simpa [deferredOrder, filter_cons, kept] using others
    | false =>
      have first := nothing d mem_cons_self (by simp [kept])
      simpa [deferredOrder, filter_cons, kept, first] using others

/-- A label has no value, so that it calls nothing. -/
theorem callOrder_of_label? (complete : n.Complete p) (label : n.label?.isSome) :
    n.callOrder = [] := by
  cases n with
  | jump _ kind value =>
    have other : kind ≠ .ret := by
      rintro rfl
      cases label
    rw [Node.callOrder, complete.1 other]
    rfl
  | _ => cases label

/-- A selector is a constant, which calls nothing. -/
theorem callOrder_of_selector? {k : Nat} (h : n.selector? = some k) : n.callOrder = [] := by
  cases n <;> first | rfl | cases h

end Codegen

end ShaderGen
