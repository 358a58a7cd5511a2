import ShaderGen.Proofs.Generation.Order
import ShaderGen.Proofs.Scope.Retyping

/-!
# Operands

The code for an operand gives a value, or a path, whose ids can be used at the place where the code
ends. They can still be used after further operands have been evaluated, whatever blocks those have
begun and ended.
-/

namespace ShaderGen

open Builder
open Steps (ends_bind)

variable {before : List Fact} {x : SymbolId} {α : Type}

/-- What is known about what the code for a node gives. -/
@[simp, reducible] def Outcome.facts : Outcome → List Fact
  | .value v => [.value v.id, .shared v.type]
  | .path q => [.path q]
  | .void => []

section Bodies

variable {p : Program} {xs : List SymbolId}

theorem Does.inBody {effect : Effect State} {c : Codegen α} {after : α → List Fact}
    (h : Does effect [.program p] c after) (xs : List SymbolId) : Does effect [.body p xs]
    c after :=
  h.last

end Bodies

namespace Codegen

variable {p : Program} {E : Effect State} [State.Computes p E]

theorem valueType_does {w : Stance} (t : ShaderType) :
    Does E [.program p] (valueType p t) ([.shared ·]) w :=
  ⟨(valueType_learns p t).runs.last, typer_acts _⟩

theorem bodyType_does (xs : List SymbolId) (t : ShaderType) :
    Does E [.body p xs] (valueType p t) ([.shared ·]) := (valueType_does t).inBody xs

/-- In a function that uses the symbols, the code keeps the ledger and calls functions in order. -/
abbrev Performs (p : Program) (xs : List SymbolId) (whole : Prop) (calls : List FunctionId)
    (c : Codegen Outcome) : Prop := Does (Calling p whole calls) [.body p xs] c Outcome.facts

end Codegen

/-- The code for an operand keeps the ledger and calls what the operand does. -/
def Deferred.Does (p : Program) (xs : List SymbolId) (whole : Prop) (d : Deferred) : Prop :=
  Codegen.Performs p xs whole d.node.callOrder d.run

namespace Deferred.Does

variable {p : Program} {xs : List SymbolId} {whole : Prop} {d : Deferred}

theorem value (h : d.Does p xs whole) : ShaderGen.Does (Calling p whole d.node.callOrder)
    [.body p xs] (d.value p) fun v => [.value v.id, .shared v.type] := by
  refine .bind (Codegen.bodyType_does xs d.type) fun type => ?_
  refine .ahead h fun outcome => ?_
  cases outcome with
  | value v => exact .bind (recast_does v.id v.type type).up fun id => .pure
  | path q => exact .bind (q.load_does type).up fun id => .pure
  | void => exact .failAt rfl

theorem evaluate (h : d.Does p xs whole) : ShaderGen.Does (Calling p whole d.node.callOrder)
    [.body p xs] (d.evaluate p) fun v => [.value v.id] :=
  .ahead h.value fun _ => .pure

theorem path (h : d.Does p xs whole) : ShaderGen.Does (Calling p whole d.node.callOrder)
    [.body p xs] d.path ([.path ·]) := by
  refine .ahead h fun outcome => ?_
  cases outcome with
  | value v => exact .pure (h := by simp [AccessPath.ofValue])
  | path q => exact .pure
  | void => exact .failAt rfl

theorem exec (h : d.Does p xs whole) :
    ShaderGen.Does (Calling p whole d.node.callOrder) [.body p xs] d.exec fun _ => [] :=
  .ahead h fun _ => .pure

end Deferred.Does

namespace Codegen

variable {p : Program} {xs : List SymbolId} {whole : Prop} {calls : List FunctionId}
  {E : Effect State}
  [State.Computes p E]

include p in
theorem report_does (d : Diagnostic) : Does E [] (report d) fun _ => [] :=
  ⟨report_runs d, .remember (fun _ => State.Computes.note (.report d) ⟨rfl, rfl, rfl⟩) fun _ _ =>
  rfl⟩

include p in
theorem nullFor_does (message : String) (type : Ident) (span : Span) :
    Does E [.shared type] (nullFor message type span) ([.shared ·]) :=
  .bind (report_does _) fun _ => (constNull_does type).compute.last

theorem unsupported_does (xs : List SymbolId) (message : String) (info : Info) :
    Does E [.body p xs] (unsupported p message info) Outcome.facts := by
  unfold unsupported
  split
  · exact .bind (report_does _) fun _ => .pure
  · refine .bind (bodyType_does xs info.type) fun type => ?_
    exact .bind (nullFor_does message type info.span) fun id => .pure

/-- What is reported once cannot be taken back. -/
theorem ends_report_bind {d : Diagnostic} {f : PUnit → Codegen α} (hf : CallFree p (f ⟨⟩))
    {s t : State} {a : α} (ends : Steps.Ends (report d >>= f) s a t) :
    t.diagnostics ≠ s.diagnostics := by
  obtain ⟨_, s1, first, ends⟩ := ends_bind ends
  cases first
  have longer := (hf.leads _ a t ends).frames.diagnostics.length_le
  intro same
  simp only [same, List.length_append, List.length_singleton] at longer
  omega

/-- Calls may be left out where a problem is reported. -/
theorem unsupported_performs (xs : List SymbolId) (message : String) (info : Info) :
    Performs p xs whole calls (unsupported p message info) := by
  have quiet := unsupported_does (E := Quiet p) xs message info
  refine ⟨quiet.runs, CallsFrom.leave quiet.acts fun _ s a t ends same => absurd same ?_⟩
  unfold unsupported at ends
  split at ends
  · exact ends_report_bind (p := p) (f := fun _ => pure Outcome.void) .pure ends
  · obtain ⟨type, s1, htype, id, s2, hnull, ends⟩ := ends_bind₂ ends
    obtain ⟨-, rfl⟩ := Steps.ends_pure ends
    have new := ends_report_bind (p := p) (constNull_does type).up.acts hnull
    have before :=
      ((bodyType_does (E := Quiet p) xs _).acts.leads s type s1 htype).frames.diagnostics
    have after := ((nullFor_does (E := Quiet p) _ _ _).acts.leads s1 id t hnull).frames.diagnostics
    intro same
    exact new (same.trans (before.eq_of_length_le (same ▸ after).length_le))

/-- What a symbol is bound to can be used where the symbol is used. -/
theorem entails_object {pointer type : Ident} {storage : StorageClass}
    [u : Gives before (.used x)] :
    Entails (.fits x (.object pointer type storage) :: before) [.fixed pointer, .shared type] := by
  refine ⟨fun l b hold => ?_⟩
  obtain ⟨fits, hold⟩ := List.forall_mem_cons.1 hold
  refine Fact.allHold_cons (fun hs => ?_)
    (Fact.allHold_cons (fun hs => (fits hs).1) Fact.allHold_nil)
  obtain ⟨-, placed, shared | own⟩ := fits hs
  · exact ⟨.inl shared, placed⟩
  · exact ⟨own.2.2 (u.holds l b hold hs).1, placed⟩

theorem entails_value {id type : Ident} [u : Gives before (.used x)] :
    Entails (.fits x (.value id type) :: before) [.fixed id, .shared type] := by
  refine ⟨fun l b hold => ?_⟩
  obtain ⟨fits, hold⟩ := List.forall_mem_cons.1 hold
  refine Fact.allHold_cons (fun hs => ?_)
    (Fact.allHold_cons (fun hs => (fits hs).1) Fact.allHold_nil)
  obtain ⟨-, global | ⟨parameter, own⟩⟩ := fits hs
  · exact ⟨.inl (Builder.Global.shared global), Builder.Global.placed global⟩
  · exact ⟨own.2.2 (u.holds l b hold hs).1, placed_of_parameter parameter⟩

theorem bodyBinding_does (hx : x ∈ xs) :
    Does (Quiet p) [.body p xs] (bindingOf p (typer p) x) fun binding => [.fits x binding] := by
  have : Gives [.body p xs] (.used x) := gives_used_of_body p hx
  exact Does.last ⟨bindingOf_runs (typer_learns p) x, bindingOf_callFree x⟩

theorem symbolPath_does (hx : x ∈ xs) :
    Does (Quiet p) [.body p xs] (symbolPath p x) ([.path ·]) := by
  refine .bind (bodyBinding_does hx) fun binding => ?_
  refine .symbol fun d _ => ?_
  have used : Gives [.body p xs] (.used x) := gives_used_of_body p hx
  cases binding with
  | object pointer type storage =>
    refine .learnAll (entails_object (u := used)) (.pure (h := ?_))
    simp [AccessPath.ofPointer, AccessPath.absorb]
  | value id type =>
    refine .learnAll (entails_value (u := used)) (.pure (h := ?_))
    simp [AccessPath.ofValue]

theorem emitOn_does (op : Opcode) (type : Ident) (ids : List Ident) (plain : op.isPlain) :
    Does (Quiet p) (.shared type :: ids.map .value) (emitOn op type ids) ([.value ·]) :=
  (emit_does op type (Operand.refs ids) plain).up.last

include p in
theorem computeOn_does (op : Opcode) (type : Ident) (ids : List Ident) (inert : op.isInert) :
    Does E (.shared type :: ids.map .value) (emitOn op type ids) ([.value ·]) :=
  (compute_does op type (Operand.refs ids) inert).compute.last

theorem loadFrom_does (pointer type : Ident) :
    Does (Quiet p) [.shared type, .value pointer] (loadFrom pointer type) ([.value ·]) :=
  emitOn_does .load type [pointer] rfl

theorem storeTo_does (pointer value : Ident) :
    Does (Quiet p) [.value pointer, .value value] (storeTo pointer value) fun _ => [] :=
  (emitVoid_does .store (Operand.refs [pointer, value]) rfl).up.last

include p in
theorem extract_does (type composite : Ident) (positions : List Nat) :
    Does E [.shared type, .value composite] (extract type composite positions) ([.value ·]) :=
  (compute_does .compositeExtract type _ rfl).compute.last (p := by simp)

end Codegen

end ShaderGen
