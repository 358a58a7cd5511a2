import ShaderGen.Source.Reach
import ShaderGen.Proofs.Scope.Intrinsic

/-!
# Code for nodes

The code for a node keeps the ledger of a function that uses the symbols of the node, and it calls
what the node calls, in the order of evaluation.
-/

namespace ShaderGen

open Node

namespace Codegen

variable {p : Program} {xs : List SymbolId} {whole : Prop} {E : Effect State} [State.Computes p E]

theorem literal_does (xs : List SymbolId) (value : ConstantValue) (t : ShaderType) :
    Does E [.body p xs] (literal p value t) Outcome.facts := by
  refine .bind (bodyType_does xs t) fun type => ?_
  refine .bind (Does.inBody ⟨(constant_learns (typer_learns p) value t).runs, constant_acts value t⟩
    xs) fun _ => .pure

theorem binary_does (op : BinaryOp) {left right : Deferred} (hl : left.Does p xs whole)
    (hr : right.Does p xs whole) (info : Info) :
    Performs p xs whole (left.node.callOrder ++ right.node.callOrder)
    (binary p op left right info) := by
  unfold binary
  split
  · exact .ahead (elementPath_does hl hr info) fun _ => .pure
  · exact .ahead (elementPath_does hl hr info) fun _ => .pure
  · exact .ahead (memberPath_does hl right.node) fun _ => .pure
  · exact logical_does true hl hr
  · exact logical_does false hl hr
  · split
    · exact assignment_does op hl hr info
    · exact binaryOperation_does op hl hr info

theorem unary_does (op : UnaryOp) {operand : Deferred} {member : Option (Deferred × Node)}
    (h : operand.Does p xs whole)
    (hm : ∀ q ∈ member, q.1.Does p xs whole ∧ q.1.node.callOrder.Sublist operand.node.callOrder)
    (info : Info) (complete : whole → op ≠ .arrayLength) :
    Performs p xs whole operand.node.callOrder (unary p op operand member info) := by
  cases op with
  | preIncrement | preDecrement | postIncrement | postDecrement => exact increment_does _ h info
  | arrayLength => exact arrayLength_does operand.type hm info fun total => complete total rfl
  | convert => exact conversion_does h info
  | negate | logicalNot | bitwiseNot => exact .ahead h.value (unaryValue_does _ operand.type info)

end Codegen

theorem Deferred.Does.mono {p : Program} {xs : List SymbolId} {whole whole' : Prop} {d : Deferred}
    (h : d.Does p xs whole) (imp : whole' → whole) : d.Does p xs whole' :=
  ⟨h.runs, CallsFrom.mono h.acts imp⟩

namespace Codegen

mutual

/-- The code for a node keeps the ledger of a function that uses its symbols, and calls what the
node does. -/
theorem code_does (p : Program) (xs : List SymbolId) : ∀ n : Node, (∀ x ∈ n.symbols, x ∈ xs) →
    Deferred.Does p xs (n.Complete p) ⟨n, code p n⟩
  | .symbol _ id, h =>
    .quiet (.bind (symbolPath_does (h id (by simp [symbols]))) fun _ => .pure)
  | .constant info value, _ => .quiet (literal_does xs value info.type)
  | .binary info op left right, h =>
    binary_does op ((code_does p xs left fun x hx => h x (by simp [symbols, hx])).mono And.left)
      ((code_does p xs right fun x hx => h x (by simp [symbols, hx])).mono And.right) info
  | .unary info op operand, h =>
    unary_does op ((code_does p xs operand h).mono And.right)
      (fun q hq => ⟨(memberOf_does p xs operand h q hq).1.mono And.right,
        (memberOf_does p xs operand h q hq).2⟩) info And.left
  | .swizzle info base components, h => swizzle_does (code_does p xs base h) components info
  | .sequence _ nodes, h => by
    unfold Deferred.Does
    rw [code, callOrder, ← deferredOrder_deferAll (p := p)]
    exact .foldCalls fun _ d hd => (deferAll_does p xs nodes h d hd).last
  | .call info f arguments, h => by
    unfold Deferred.Does
    rw [code, callOrder, ← deferredOrder_deferAll (p := p)]
    exact call_does f (deferAll_does p xs arguments h) info.span
  | .construct info arguments, h => by
    unfold Deferred.Does
    rw [code, callOrder, ← deferredOrder_deferAll (p := p)]
    refine construction_does (fun d mem => (deferAll_does p xs arguments h d mem).mono And.right)
      info ?_
    exact fun complete n arity => length_deferAll.trans (complete.1 n arity)
  | .intrinsic info op arguments, h => by
    unfold Deferred.Does
    rw [code, callOrder, ← deferredOrder_deferAll (p := p)]
    refine intrinsic_does (fun d mem => (deferAll_does p xs arguments h d mem).mono And.right)
      op info ?_
    exact fun complete takes => by rw [complete.1 takes, deferAll]
  | .select info condition thenBranch elseBranch evaluateBoth advice, h => by
    unfold Deferred.Does
    rw [code, callOrder, ← optionalOrder_deferOption (p := p) thenBranch,
      ← optionalOrder_deferOption (p := p) elseBranch]
    refine selection_does ((code_does p xs condition fun x hx => h x ?_).mono And.left)
      (fun d hd => (deferOption_does p xs thenBranch (fun x hx => h x ?_) d hd).mono (·.2.1))
      (fun d hd => (deferOption_does p xs elseBranch (fun x hx => h x ?_) d hd).mono (·.2.2))
      evaluateBoth advice info
    all_goals simp [symbols, hx]
  | .switch _ selector body advice, h => by
    unfold Deferred.Does
    rw [code, callOrder, ← deferredOrder_deferAll (p := p)]
    refine .ahead (switch_does ((code_does p xs selector fun x hx => h x ?_).mono And.left)
      (fun d mem => (deferAll_does p xs body (fun x hx => h x ?_) d mem).mono (·.2.2)) advice ?_ ?_)
      fun _ => .pure
    · simp [symbols, hx]
    · simp [symbols, hx]
    · exact fun complete => head_deferAll complete.2.1
    · intro complete d mem label
      rw [deferAll_eq_map] at mem
      obtain ⟨n, listed, rfl⟩ := List.mem_map.1 mem
      exact callOrder_of_label? (complete.2.2.of_mem listed)
        (by simpa [Option.isSome_iff_ne_none] using label)
  | .loop _ test body terminal testFirst advice, h => by
    unfold Deferred.Does
    rw [code, callOrder, ← optionalOrder_deferOption (p := p) test,
      ← optionalOrder_deferOption (p := p) body, ← optionalOrder_deferOption (p := p) terminal]
    refine .ahead (loop_does
      (fun d hd => (deferOption_does p xs test (fun x hx => h x ?_) d hd).mono And.left) testFirst
      (fun d hd => (deferOption_does p xs body (fun x hx => h x ?_) d hd).mono (·.2.1))
      (fun d hd => (deferOption_does p xs terminal (fun x hx => h x ?_) d hd).mono (·.2.2))
      advice) fun _ => .pure
    all_goals simp [symbols, hx]
  | .jump info kind value, h => by
    unfold Deferred.Does
    rw [code, callOrder, ← optionalOrder_deferOption (p := p)]
    refine .ahead (jump_does kind (fun d hd => (deferOption_does p xs value h d hd).mono And.right)
      info.span ?_) fun _ => .pure
    exact fun complete other => by rw [complete.1 other, deferOption]
  | .declare _ id init, h => by
    unfold Deferred.Does
    rw [code, callOrder, ← optionalOrder_deferOption (p := p)]
    refine .ahead (declaration_does (h id (by simp [symbols])) (fun d hd =>
      (deferOption_does p xs init (fun x hx => h x ?_) d hd).mono And.right) ?_)
      fun _ => .pure
    · simp [symbols, hx]
    · exact fun complete s found constant => by rw [complete.1 s found constant, deferOption]

theorem deferAll_does (p : Program) (xs : List SymbolId) : ∀ ns : List Node,
    (∀ x ∈ allSymbols ns, x ∈ xs) → ∀ d ∈ deferAll p ns, d.Does p xs (AllComplete p ns)
  | [], _, _, hd => by cases hd
  | n :: rest, h, d, hd => by
    rcases List.mem_cons.1 hd with rfl | hd
    · exact (code_does p xs n fun x hx => h x (by simp [allSymbols, hx])).mono And.left
    · exact (deferAll_does p xs rest (fun x hx => h x (by simp [allSymbols, hx])) d hd).mono
        And.right

theorem deferOption_does (p : Program) (xs : List SymbolId) : ∀ n : Option Node,
    (∀ x ∈ optionalSymbols n, x ∈ xs) → ∀ d ∈ deferOption p n, d.Does p xs (OptionalComplete p n)
  | none, _, _, hd => by cases hd
  | some n, h, d, hd => by
    cases hd
    exact code_does p xs n h

theorem memberOf_does (p : Program) (xs : List SymbolId) : ∀ n : Node,
    (∀ x ∈ n.symbols, x ∈ xs) → ∀ q ∈ memberOf p n, q.1.Does p xs (n.Complete p) ∧
      q.1.node.callOrder.Sublist n.callOrder
  | .binary _ op left right, h, q, hq => by
    cases op <;> cases hq
    exact ⟨(code_does p xs left fun x hx => h x (by simp [symbols, hx])).mono And.left,
      List.sublist_append_left _ _⟩
  | .symbol .., _, _, hq | .constant .., _, _, hq | .unary .., _, _, hq | .swizzle .., _, _, hq
  | .sequence .., _, _, hq | .call .., _, _, hq | .construct .., _, _, hq
  | .intrinsic .., _, _, hq | .select .., _, _, hq | .switch .., _, _, hq | .loop .., _, _, hq
  | .jump .., _, _, hq | .declare .., _, _, hq => by cases hq

end

theorem statement_does {n : Node} (h : ∀ x ∈ n.symbols, x ∈ xs) :
    Does (Calling p (n.Complete p) n.callOrder) [.body p xs] (statement p n) fun _ => [] :=
  .ahead (code_does p xs n h) fun _ => .pure

end Codegen

end ShaderGen
