import ShaderGen.Proofs.Scope.Operator

/-!
# Selections, assignments, calls and images

A path that an operand has given is kept while further operands are evaluated, and is read from or
written to afterwards.
-/

namespace ShaderGen.Codegen

open Builder List
open Steps (Ends ends_bind)

variable {p : Program} {xs : List SymbolId} {whole : Prop} {calls : List FunctionId}
  {base index operand left right argument : Deferred} {arguments : List Deferred} {E : Effect State}
  [State.Computes p E] {before : List Fact}

/-! ## Selections -/

instance gives_path_absorb {before : List Fact} {q : AccessPath} {coherency : Coherency}
    {alignment : Nat} [g : Gives before (.path q)] :
    Gives before (.path (q.absorb coherency alignment)) :=
  ⟨g.holds⟩

theorem requireIndexing_does (element : ShaderType) (nonUniform : Bool) :
    Does Building [] (requireIndexing element nonUniform) fun _ => [] := by
  unfold requireIndexing
  split
  · exact .pure
  · refine .bind (addCapability_does _) fun _ => ?_
    split
    · exact (useExtension_does (by decide)).last
    · exact .pure

theorem elementPath_does (hb : base.Does p xs whole) (hi : index.Does p xs whole) (info : Info) :
    Does (Calling p whole (base.node.callOrder ++ index.node.callOrder)) [.body p xs]
      (elementPath p base index info) ([.path ·]) := by
  refine .both hb.path fun path => .ahead hi.value fun i => ?_
  refine .guard (fun _ => (requireIndexing_does _ _).up) ?_
  exact (AccessPath.selectIndex_does _ i.id).up.last

theorem ownerPath_does (h : base.Does p xs whole) :
    Does (Calling p whole base.node.callOrder) [.body p xs] (ownerPath p base)
      fun q => [.path q.1] := by
  unfold ownerPath
  split
  · refine .ahead h.value fun pointer => ?_
    refine .bind ⟨followReference_runs p _, followReference_acts _⟩ fun pointee => .pure (h := ?_)
    simp [AccessPath.ofPointer, AccessPath.absorb]
  · exact .ahead h.path fun path => .pure
  · exact .failAt rfl

theorem bodyPosition_does (xs : List SymbolId) (id : StructId) (source : Nat) :
    Does E [.body p xs] (memberPosition p id source) fun _ => [] := by
  refine .lookState (fun _ => rfl) fun s => .fork ?_ fun _ rest =>
    .bind (bodyType_does xs _) fun _ => rest.last
  refine .lookState (fun _ => rfl) fun t => ?_
  split
  · exact .pure
  · exact .fail rfl
  · exact .fail rfl

theorem selectSourceMember_does (xs : List SymbolId) (path : AccessPath) (id : StructId)
    (source : Nat) :
    Does E [.body p xs, .path path] (selectSourceMember p path id source) ([.path ·]) := by
  refine .bind (bodyPosition_does xs id source) fun k => ?_
  split
  · exact .fail rfl
  · refine .bind (require_does (builtInRequirements_general _ _ _)).compute fun _ => ?_
    exact (AccessPath.selectMember_does _ k).compute.last

theorem memberPath_does (h : base.Does p xs whole) (index : Node) :
    Does (Calling p whole (base.node.callOrder ++ index.callOrder)) [.body p xs]
    (memberPath p base index) ([.path ·]) := by
  unfold memberPath
  split
  · exact .failAt rfl
  · rename_i constant
    rw [callOrder_of_selector? constant, append_nil]
    refine .ahead (ownerPath_does h) fun q => ?_
    exact (selectSourceMember_does xs q.1 q.2 _).last

theorem swizzle_does (h : base.Does p xs whole) (components : List Nat) (info : Info) :
    Performs p xs whole base.node.callOrder (swizzle p base components info) := by
  unfold swizzle
  split
  · refine .ahead h.value fun v => ?_
    refine .bind (bodyType_does xs info.type) fun type => ?_
    split
    · exact .pure
    · exact .bind (h := by simp) (emitOn_does .compositeConstruct type _ rfl) (fun id => .pure)
  · refine .ahead h.path fun path => ?_
    exact .bind (AccessPath.selectComponents_does path components path.type).up fun q => .pure

theorem runtimeLength_does (h : base.Does p xs whole) (id : StructId) (source : Nat)
    (type : Ident) : Does (Calling p whole base.node.callOrder) [.body p xs, .shared type]
      (runtimeLength p base id source type) Outcome.facts := by
  refine .ahead h.path fun path => ?_
  refine .bind (bodyPosition_does xs id source) fun k => ?_
  refine .bind path.pointer_does.up fun pointer => ?_
  refine .bind typeWord_does.up fun word => ?_
  refine .bind (emit_does .arrayLength word _ rfl).up (fun length => ?_)
  split
  · exact .pure
  · exact .bind (emitOn_does .bitcast type [length] rfl) fun id => .pure

/-- The array itself is not evaluated for its length, only the block that it is a member of. -/
theorem arrayLength_does (array : ShaderType) {member : Option (Deferred × Node)}
    (h : ∀ q ∈ member, q.1.Does p xs whole ∧ q.1.node.callOrder.Sublist calls) (info : Info)
    (never : ¬ whole) : Performs p xs whole calls (arrayLength p array member info) := by
  refine .bind (bodyType_does xs info.type) fun type => ?_
  split
  · exact .skip (.bind (constBits_does type _).up fun id => .pure)
      fun complete => absurd complete never
  · exact (unsupported_performs xs _ info).last
  · split
    · exact (unsupported_performs xs _ info).last
    split
    · exact .failAt rfl
    · obtain ⟨block, sublist⟩ := h _ rfl
      exact ((runtimeLength_does block _ _ type).last).widen sublist
        fun complete => absurd complete never

/-! ## Assignments -/

theorem assignment_does (op : BinaryOp) (hl : left.Does p xs whole)
    (hr : right.Does p xs whole) (info : Info) :
    Performs p xs whole (left.node.callOrder ++ right.node.callOrder)
      (assignment p op left right info) := by
  refine .both hl.path fun path => ?_
  refine .ensure rfl fun _ => ?_
  refine .ahead hr.value fun r => ?_
  have finish : ∀ stored : Value,
      Does (Quiet p) [.path path, .value stored.id, .shared stored.type] (do
        path.store stored.id stored.type
        return .value stored : Codegen Outcome) Outcome.facts :=
    fun stored => .bind (path.store_does stored.id stored.type).up fun _ => .pure
  split
  · exact (finish r).last
  · refine .bind (bodyType_does xs left.type) fun type => ?_
    refine .bind (path.load_does type).up fun current => ?_
    refine .bind (operation_does xs _ ⟨current, left.type⟩ ⟨r.id, right.type⟩ _ _) fun stored => ?_
    exact (finish stored).last

theorem plain_stepOpcode (float increment : Bool) : (stepOpcode float increment).isPlain := by
  cases float <;> cases increment <;> rfl

theorem increment_does (op : UnaryOp) (h : operand.Does p xs whole) (info : Info) :
    Performs p xs whole operand.node.callOrder (increment p op operand info) := by
  unfold increment
  split
  · exact unsupported_performs xs _ info
  · refine .ahead h.path fun path => ?_
    refine .bind (bodyType_does xs operand.type) fun type => ?_
    refine .bind (path.load_does type).up fun old => ?_
    refine .bind (constFilled_does type 1).up fun one => ?_
    refine .bind (emitOn_does _ type [old, one] (plain_stepOpcode _ _)) fun new => ?_
    refine .bind (path.store_does new type).up fun _ => .pure (h := ?_)
    split <;> simp

theorem declaration_does {x : SymbolId} (hx : x ∈ xs) {init : Option Deferred}
    (h : ∀ d ∈ init, d.Does p xs whole)
    (complete : whole → ∀ s, p.symbol? x = some s → s.isConstant → init = none) :
    Does (Calling p whole (optionalOrder init)) [.body p xs] (declaration p x init) fun _ =>
    [] := by
  refine .symbol fun s found => ?_
  refine .bind (bodyBinding_does hx) fun binding => ?_
  dsimp only
  split
  · rename_i constant
    exact .skip (.pure) fun total => by simp [optionalOrder, complete total s found constant]
  cases init with
  | none => exact .quiet (.pure)
  | some init =>
    refine .ahead (h init rfl).value fun v => ?_
    cases binding with
    | value id type => exact .failAt rfl
    | object pointer type storage =>
      have used : Gives [.body p xs] (.used x) := gives_used_of_body p hx
      refine .learnAll (.right (h := entails_object (u := used))) ?_
      exact (AccessPath.store_does _ v.id v.type).up.last (p := by simp [AccessPath.ofPointer])

/-! ## Calls -/

variable (f : FunctionId)

theorem signature_runs :
    Runs [] (signature f) fun s => [.anywhere s.id, .shared s.returnType] := by
  refine .bind .getState fun s => ?_
  split
  · rename_i signature found
    refine .pure (h := ?_)
    simp only [entails_cons, entails_nil, and_true]
    exact ⟨⟨fun l b hold hs => ((hold (.records s) (by simp) hs).signatures f _ found).1⟩,
      ⟨fun l b hold hs => ((hold (.records s) (by simp) hs).signatures f _ found).2.1⟩⟩
  · exact .fail

theorem fails_signature {f : FunctionId} {s : State} {e : Failure}
    (fails : Steps.Fails (signature f) s e) :
    e = .generating (.undeclaredFunction f) none ∧ s.signatures.lookup f = none := by
  obtain fails | ⟨s', t, ends, fails⟩ := Steps.fails_bind fails
  · obtain ⟨t, fails⟩ := fails
    cases fails
  · cases ends
    obtain ⟨t, fails⟩ := fails
    cases found : s.signatures.lookup f with
    | some r =>
      rw [found] at fails
      cases fails
    | none =>
      rw [found] at fails
      cases fails
      exact ⟨rfl, rfl⟩

/-- What is known about what has to be copied back. -/
abbrev CopyBack.facts (c : CopyBack) : List Fact := [.path c.path, .fixed c.var, .shared c.type]

theorem CopyBack.run_does (c : CopyBack) : Does (Quiet p) c.facts c.run fun _ => [] :=
  .bind (loadFrom_does c.var c.type) fun value =>
  (AccessPath.store_does c.path value c.type).up.last

theorem copyBacks_does {backs : List CopyBack} [h : Entails before (backs.flatMap CopyBack.facts)] :
    Does (Quiet p) before (backs.forM CopyBack.run) fun _ => [] :=
  .forM fun c hc => c.run_does.last (p := entails_flatMap.1 h c hc)

theorem copyArgument_does (h : argument.Does p xs whole) (t : ShaderType) :
    Does (Calling p whole argument.node.callOrder) [.body p xs] (copyArgument p argument t)
      fun r => .value r.1 :: r.2.flatMap CopyBack.facts := by
  refine .bind (bodyType_does xs t) fun type => ?_
  split
  · refine .ahead h.path fun path => ?_
    refine .bind (localVariable_does "param" type).up fun var => ?_
    refine .fork .pure fun _ rest => ?_
    refine .bind (path.load_does type).up fun value => ?_
    exact .bind (storeTo_does var value) fun _ => rest.last
  · refine .bind (localVariable_does "param" type).up fun var => ?_
    refine .ahead h.value fun v => ?_
    refine .bind (recast_does v.id v.type type).up fun value => ?_
    exact .bind (storeTo_does var value) fun _ => .pure

theorem passArgument_does (h : argument.Does p xs whole) (passing : Passing) (t : ShaderType) :
    Does (Calling p whole argument.node.callOrder) [.body p xs] (passArgument p argument passing t)
      fun r => .value r.1 :: r.2.flatMap CopyBack.facts := by
  unfold passArgument
  split
  · refine .ahead h.path fun path => ?_
    exact .bind path.pointer_does.up fun pointer => .pure
  · exact copyArgument_does h t
  · refine .bind (bodyType_does xs t) fun type => ?_
    refine .ahead h.value fun v => ?_
    exact .bind (recast_does v.id v.type type).up fun value => .pure

theorem entails_operands (passed : List (Ident × List CopyBack))
    [h : Entails before (passed.flatMap fun r => .value r.1 :: r.2.flatMap CopyBack.facts)] :
    Entails before ((passed.map Prod.fst).map .value ++
      (passed.flatMap Prod.snd).flatMap CopyBack.facts) := by
  rw [entails_flatMap] at h
  simp only [entails_append, entails_map, entails_flatMap, forall_mem_map, mem_flatMap,
    forall_exists_index, and_imp]
  refine ⟨fun r hr => (entails_cons.1 (h r hr)).1, fun c r hr hc => ?_⟩
  exact entails_flatMap.1 (entails_cons.1 (h r hr)).2 c hc

theorem passArguments_does (h : ∀ a ∈ arguments, a.Does p xs whole) (passing : List Passing)
    (parameters : List SymbolId) :
    Does (Calling p whole (((arguments.zip passing).zip parameters).flatMap fun q =>
      q.1.1.node.callOrder)) [.body p xs] (((arguments.zip passing).zip parameters).mapM fun q => do
        let s ← p.symbol q.2
        passArgument p q.1.1 q.1.2 s.type)
      fun rs => rs.flatMap fun r => .value r.1 :: r.2.flatMap CopyBack.facts :=
  .mapCalls _ fun _ mem => .symbol fun _ _ =>
    passArgument_does (h _ (of_mem_zip (of_mem_zip mem).1).1) _ _

theorem call_runs (h : ∀ a ∈ arguments, a.Does p xs whole) (span : Span) :
    Runs [.body p xs] (call p f arguments span) Outcome.facts := by
  refine .bind (signature_runs f) fun signature => ?_
  refine .bind (function_does f : Learning .outside _ _ _).runs fun definition => ?_
  dsimp only
  split
  · exact .abort not_ends_failAt
  refine .bind (passArguments_does h _ _).runs fun passed => ?_
  refine .learnAll (entails_operands passed) ?_
  refine .bind (emit_runs .functionCall signature.returnType (_ :: Operand.refs _) rfl).up
    fun id => ?_
  refine .next (copyBacks_does (p := p)).runs fun _ => ?_
  split <;> exact .pure

theorem arguments_sublist (passing : List Passing) (parameters : List SymbolId) :
    (((arguments.zip passing).zip parameters).flatMap fun q => q.1.1.node.callOrder).Sublist
      (deferredOrder arguments) :=
  order_sublist ((map_map (g := Prod.fst) ▸ (map_fst_zip_sublist _).map _).trans
    (map_fst_zip_sublist _))

theorem afterCall_callFree (signature : Signature) (definition : FunctionDecl)
    (passed : List (Ident × List CopyBack)) (id : Ident) : CallFree p (do
      (passed.flatMap Prod.snd).forM CopyBack.run
      if definition.returnType.isVoid then return .void
      else return .value { id, type := signature.returnType } : Codegen Outcome) := by
  refine .bind (copyBacks_does (h := entails_refl)).acts fun _ => ?_
  split <;> exact .pure

theorem signature_wanting {x : Stance} : Acting x x (Wanting [f]) (signature f) where
  leads s a t ends := by
    obtain ⟨-, rfl⟩ := ends_signature ends
    rfl
  steady s a t stands ends := by
    obtain ⟨-, rfl⟩ := ends_signature ends
    exact stands
  fails s e _ fails := by
    obtain ⟨rfl, undeclared⟩ := fails_signature fails
    refine ⟨rfl, fun g wanted => ?_⟩
    cases wanted
    exact ⟨mem_singleton_self f, undeclared⟩
  blind := by
    refine .lookFailing (fun _ => rfl) fun s => ?_
    split
    · exact .pure
    · exact .throw

theorem call_wanting (h : ∀ a ∈ arguments, a.Does p xs whole) (span : Span) :
    Acts (Wanting (deferredOrder arguments ++ [f])) (call p f arguments span) := by
  refine .bind (Wanting.widen (signature_wanting f) (by simp)) fun signature => ?_
  refine .bind (Wanting.of_quiet (p := p) (function_does f).acts) fun definition => ?_
  dsimp only
  split
  · exact .failAt rfl
  have passes :=
    Wanting.of_calls (passArguments_does h signature.passing definition.parameters).acts
  refine .bind (Wanting.widen passes fun g called => ?_) fun passed =>
    .bind (Wanting.build (emit_any _ _ _)) fun id => ?_
  · exact mem_append_left _ ((arguments_sublist _ _).subset called)
  · exact Wanting.of_quiet (afterCall_callFree (p := p) signature definition passed id)

theorem call_calls (h : ∀ a ∈ arguments, a.Does p xs whole) (span : Span) :
    Calls p (deferredOrder arguments ++ [f]) whole (call p f arguments span) := by
  refine { call_wanting f h span with leads := fun s a t ends => ?_ }
  obtain ⟨signature, s1, hsignature, definition, s2, hfunction, ends2⟩ := ends_bind₂ ends
  obtain ⟨declared, rfl⟩ := ends_signature hsignature
  obtain ⟨defined, rfl⟩ := ends_function hfunction
  by_cases passes : arguments.length = signature.passing.length
  swap
  · rw [if_pos passes] at ends2
    cases ends2
  rw [if_neg (not_not_intro passes)] at ends2
  obtain ⟨passed, s3, hpass, ends3⟩ := ends_bind ends2
  obtain ⟨made, sublist, generates, all⟩ :=
    (passArguments_does h signature.passing definition.parameters).acts.leads s2 passed s3 hpass
  obtain ⟨id, s4, hemit, ends4⟩ := ends_bind ends3
  obtain ⟨b, emits, rfl⟩ := ends_lift Build hemit
  have after := (afterCall_callFree (p := p) signature definition passed id).leads _ a t ends4
  have called : Generates p (made ++ [f]) s2 { s3 with builder := b } :=
    .call generates (generates.frames.signatures ▸ declared) emits
  refine ⟨made ++ [f], ?_, by simpa using called.trans after, fun total declares same => ?_⟩
  · exact (sublist.trans (arguments_sublist _ _)).append (List.Sublist.refl _)
  · have emitted : s3.Frames { s3 with builder := b } := ⟨rfl, prefix_refl _⟩
    have middle := generates.frames.silent (trans_of State.Frames emitted after.frames) same
    have parameters := declares f signature definition declared defined
    rw [all total declares middle, order_eq]
    change map (Prod.fst ∘ Prod.fst) _ = _
    rw [← map_map, map_fst_zip (by simp; omega), map_fst_zip (Nat.le_of_eq passes)]

theorem call_does (h : ∀ a ∈ arguments, a.Does p xs whole) (span : Span) :
    Performs p xs whole (deferredOrder arguments ++ [f]) (call p f arguments span) :=
  ⟨call_runs f h span, call_calls f h span⟩

end ShaderGen.Codegen
