import ShaderGen.Proofs.Control.Constructs
import ShaderGen.Proofs.Scope.Flow

/-!
# Selections, loops, switches and jumps

Every construct keeps the ledger if the code for its parts does. Inside of a loop or a switch, jumps
can go to its labels, since their blocks ask for nothing but what was known where the construct
started.
-/

namespace ShaderGen.Codegen

open Builder List Instruction

variable {p : Program} {xs : List SymbolId} {whole : Prop} {before : List Fact} {live : Bool}
  {condition elseValue right thenValue : Deferred}
  {elseBranch terminal thenBranch : Option Deferred} {body test : Option Deferred}

/-! ## Blocks -/

variable {x y : Stance} {groups : List (CaseGroup Deferred)} {blocks : List Ident} {op : Opcode}
  {d value : Option Deferred}

theorem fresh_callFree : Acting x x (Quiet p) (liftM fresh : Codegen Ident) :=
  build_callFree fresh_acts

theorem isLive_does : Does (Quiet p) [] isLive (fun _ => []) x :=
  .lookBuilder (fun _ => rfl) fun _ => .pure

/-- An operand that is run if it is there. -/
theorem optional_does (h : ∀ a ∈ d, a.Does p xs whole) :
    Does (Calling p whole (optionalOrder d)) [.body p xs] (d.forM Deferred.exec) fun _ => [] := by
  cases d with
  | none => exact .quiet .pure
  | some d => exact (h d rfl).exec

/-! ## Jumps -/

theorem terminate_does (p : Program) (xs : List SymbolId) {operands : List Operand}
    (final : op.isFinal) [Gives before (.body p xs)]
    (values : Entails before ((valueIds { op, operands }).map .value))
    (names : labelIds { op, operands } = []) (joins : incoming { op, operands } = []) :
    Does (Quiet p) before (liftM (terminate op operands) : Codegen Unit) fun _ => [] := by
  have noCall : op ≠ .functionCall := by
    rintro rfl
    cases final
  refine .of_goes p xs (fun _ => (terminate_writes final).mono fun _ _ _ _ => trivial) ?_
  exact .liftBind (terminate_acts noCall operands) (.endWith [] noCall values (by simp) names joins)
    fun _ => (Goes.beginDeadBlock [] (by simp)).done

theorem stop_does (p : Program) (xs : List SymbolId) (final : op.isFinal)
    [Gives before (.body p xs)] :
    Does (Quiet p) before (liftM (terminate op []) : Codegen Unit) fun _ => [] := by
  refine terminate_does p xs final ?_ ?_ ?_
  · simp only [valueIds, ids]
    split <;> simp
  · simp only [labelIds, ids]
    split <;> rfl
  · simp only [incoming, ids]
    split <;> rfl

theorem returnValue_does (p : Program) (xs : List SymbolId) (id : Ident)
    [Gives before (.body p xs)] [h : Gives before (.value id)] :
    Does (Quiet p) before (liftM (terminate .returnValue [.ref id]) : Codegen Unit) fun _ => [] :=
  terminate_does p xs rfl (by simpa [valueIds, ids] using h) rfl rfl

theorem jumpTo_goes {base facts : List Fact} {t : Ident} (ht : .target t ∈ facts) :
    Goes base .inside .inside (Quiet p) ⟨[], [], true, [], facts⟩ (jumpTo t) fun _ => .done [] :=
  .bind (.finishBlock [] (.inr ht) (by simp)) fun _ => (Goes.beginDeadBlock [] (by simp)).done

theorem currentBlock_does (p : Program) (xs : List SymbolId) (x : Ident) :
    Does (Quiet p) [.body p xs, .value x] currentBlock fun label => [.leaves label x] := by
  refine ⟨fun l s label t sound hold ends => ?_, .lookBuilder (fun _ => rfl) fun b => ?_⟩
  · obtain ⟨b, s1, hget, ends⟩ := Steps.ends_bind ends
    cases hget
    split at ends
    · rename_i found
      cases ends
      refine ⟨l, sound, .refl l _, .refl _, Fact.allHold_cons (fun hs => ?_) Fact.allHold_nil⟩
      obtain ⟨k, hk⟩ := Option.isSome_iff_exists.1 (hold (.body p xs) (by simp)).1
      obtain ⟨label', same, leaves⟩ := (sound hs).builder.leaves_of_known hk
      cases same.symm.trans found
      exact leaves x (hold (.value x) (by simp) hs).1
    · cases ends
  · split
    · exact .pure
    · exact .fail rfl

/-! ## Selections -/

section Selection

variable {base : List Fact} [Gives base (.body p xs)] {labels rest : List Ident}
  {scopes : List JumpScope} {facts : List Fact} {label merge : Ident} {pending : List Ident}

theorem choose_goes {c thenBlock elseBlock : Ident}
    (advice : SelectionAdvice) [Gives facts (.value c)]
    (ht : thenBlock ∈ labels) (he : elseBlock ∈ labels) (hm : merge ∈ labels) :
    Goes base .inside .between (Quiet p) ⟨labels, pending, true, scopes, facts⟩
      (choose c thenBlock elseBlock merge advice) fun _ => ⟨labels, pending, false, scopes, []⟩ :=
  .bind (.selectionMerge hm) fun _ => .branchIf [] ht he (by simp)

theorem branchBody_goes (h : ∀ a ∈ d, a.Does p xs whole) (hm : merge ∈ labels) :
    Goes base .between .between (Calling p whole (optionalOrder d))
      ⟨labels, label :: rest, false, scopes, facts⟩ (branchBody label merge live d)
      fun _ => ⟨labels, rest, false, scopes, []⟩ := by
  refine .bind (.beginAt [] (by simp)) fun _ => .ahead (.run (optional_does h)) fun _ => ?_
  refine .bind (.run isLive_does) fun _ => ?_
  exact .bind (.finishBlock [] (.inl hm) (by simp)) fun _ => .pure

theorem branchOn_does {condition : Ident} (ht : ∀ a ∈ thenBranch, a.Does p xs whole)
    (he : ∀ a ∈ elseBranch, a.Does p xs whole) (advice : SelectionAdvice) :
    Does (Calling p whole (optionalOrder thenBranch ++ optionalOrder elseBranch))
      [.body p xs, .value condition] (branchOn condition thenBranch elseBranch advice)
      fun _ => [] := by
  refine .of_goes p xs ?_ ?_
  · exact fun _ => (branchOn_writes advice (fun a ha => (ht a ha).exec.runs.writes)
      fun a ha => (he a ha).exec.runs.writes).mono fun _ _ _ _ => trivial
  refine .bind (.run isLive_does) fun live => ?_
  refine .bind .fresh fun thenBlock => .bind .fresh fun merge => ?_
  cases elseBranch with
  | none =>
    simp only [Option.isSome_none, Bool.false_eq_true, if_false, pure_bind]
    refine .bind (choose_goes advice (by simp) (by simp) (by simp)) fun _ => ?_
    refine .both (branchBody_goes ht (by simp)) fun thenReached => ?_
    exact .quiet (Goes.beginAt [] (by simp)).done
  | some other =>
    simp only [Option.isSome_some, if_true]
    refine .bind .fresh fun elseBlock => ?_
    refine .bind (choose_goes advice (by simp) (by simp) (by simp)) fun _ => ?_
    refine .both (branchBody_goes ht (by simp)) fun thenReached => ?_
    refine .ahead (.order (.swap _ _ _) (branchBody_goes he (by simp))) fun elseReached => ?_
    exact (Goes.beginAt [] (by simp)).done

theorem ifStatement_does (hc : condition.Does p xs whole) (ht : ∀ a ∈ thenBranch, a.Does p xs whole)
    (he : ∀ a ∈ elseBranch, a.Does p xs whole) (advice : SelectionAdvice) :
    Does (Calling p whole (condition.node.callOrder ++ (optionalOrder thenBranch ++
      optionalOrder elseBranch))) [.body p xs]
      (ifStatement p condition thenBranch elseBranch advice) fun _ => [] :=
  .both hc.value fun _ => (branchOn_does ht he advice).last

theorem selectValue_does (hc : condition.Does p xs whole) (ht : thenValue.Does p xs whole)
    (he : elseValue.Does p xs whole) (t : ShaderType) (type : Ident) :
    Does (Calling p whole (condition.node.callOrder ++ (thenValue.node.callOrder ++
      elseValue.node.callOrder))) [.body p xs, .shared type]
      (selectValue p condition thenValue elseValue t type) fun v =>
      [.value v.id, .shared v.type] := by
  refine .both hc.evaluate fun c => .both ht.value fun a => ?_
  refine .ahead he.value fun b => .lookBuilder (fun _ => rfl) fun builder => ?_
  split
  · refine .bind (broadcast_does xs c t) fun selector => ?_
    exact .bind (emitOn_does .select type [selector, a.id, b.id] rfl) fun id => .pure
  · rw [pure_bind]
    exact .bind (emitOn_does .select type [c.id, a.id, b.id] rfl) fun id => .pure

theorem storeSide_goes {var type : Ident} {side : Deferred} (h : side.Does p xs whole)
    [Entails base [.body p xs, .fixed var, .shared type]] (hm : merge ∈ labels) :
    Goes base .between .between (Calling p whole side.node.callOrder)
      ⟨labels, label :: rest, false, scopes, facts⟩ (storeSide p label merge var type live side)
      fun _ => ⟨labels, rest, false, scopes, []⟩ := by
  refine .bind (.beginAt [] (by simp)) fun _ => ?_
  refine .learn [.body p xs, .fixed var, .shared type] inferInstance ?_
  refine .ahead (.run h.value) fun v => .bind (.run (recast_does v.id v.type type).up) fun id => ?_
  exact .bind (.run (storeTo_does var id)) fun _ => .finishBlock [] (.inl hm) (by simp)

theorem storeSides_does {condition var type : Ident} (ht : thenValue.Does p xs whole)
    (he : elseValue.Does p xs whole) (advice : SelectionAdvice) :
    Does (Calling p whole (thenValue.node.callOrder ++ elseValue.node.callOrder))
      [.body p xs, .fixed var, .shared type, .value condition]
      (storeSides p condition thenValue elseValue advice var type) fun _ => [] := by
  refine .of_goes p xs
    (fun _ => storeSides_writes advice ht.value.runs.writes he.value.runs.writes) ?_
  refine .bind (.run isLive_does) fun live => ?_
  refine .bind .fresh fun thenBlock => .bind .fresh fun elseBlock => .bind .fresh fun merge => ?_
  refine .bind (choose_goes advice (by simp) (by simp) (by simp)) fun _ => ?_
  refine .both (storeSide_goes ht (by simp)) fun _ => .ahead (storeSide_goes he (by simp))
    fun _ => ?_
  exact (Goes.beginAt [] (by simp)).done

theorem branchValue_does (hc : condition.Does p xs whole) (ht : thenValue.Does p xs whole)
    (he : elseValue.Does p xs whole) (advice : SelectionAdvice) (type : Ident) :
    Does (Calling p whole (condition.node.callOrder ++ (thenValue.node.callOrder ++
      elseValue.node.callOrder))) [.body p xs, .shared type]
      (branchValue p condition thenValue elseValue advice type)
      fun v => [.value v.id, .shared v.type] := by
  refine .bind (localVariable_does "ternary" type).up fun var => ?_
  refine .both hc.value fun c => ?_
  refine .ahead (storeSides_does ht he advice) fun _ => ?_
  exact .bind (loadFrom_does var type) fun id => .pure

theorem conditional_does (hc : condition.Does p xs whole) (ht : thenValue.Does p xs whole)
    (he : elseValue.Does p xs whole) (evaluateBoth : Bool) (advice : SelectionAdvice)
    (info : Info) : Does (Calling p whole (condition.node.callOrder ++ (thenValue.node.callOrder ++
      elseValue.node.callOrder))) [.body p xs]
      (conditional p condition thenValue elseValue evaluateBoth advice info)
      fun v => [.value v.id, .shared v.type] := by
  refine .bind (bodyType_does xs info.type) fun type => ?_
  refine .lookBuilder (fun _ => rfl) fun b => ?_
  split
  · exact (selectValue_does hc ht he info.type type).last
  · exact (branchValue_does hc ht he advice type).last

theorem selection_does (hc : condition.Does p xs whole) (ht : ∀ a ∈ thenBranch, a.Does p xs whole)
    (he : ∀ a ∈ elseBranch, a.Does p xs whole) (evaluateBoth : Bool) (advice : SelectionAdvice)
    (info : Info) : Performs p xs whole
      (condition.node.callOrder ++ (optionalOrder thenBranch ++ optionalOrder elseBranch))
      (selection p condition thenBranch elseBranch evaluateBoth advice info) := by
  unfold selection
  split
  · exact .ahead (ifStatement_does hc ht he advice) fun _ => .pure
  split
  · exact .ahead (conditional_does hc (ht _ rfl) (he _ rfl) evaluateBoth advice info)
      fun v => .pure
  · exact .failAt rfl

/-! ## Logical operators -/

theorem branchConditional_goes {c thenBlock elseBlock : Ident}
    (kept : List Fact) (lasting : ∀ φ ∈ kept, φ.isLasting ∧ φ ∈ facts)
    [Gives facts (.value c)] (ht : thenBlock ∈ labels)
    (he : elseBlock ∈ labels) (hm : merge ∈ labels) :
    Goes base .inside .between (Quiet p) ⟨labels, pending, true, scopes, facts⟩
      (liftM (branchConditional c thenBlock elseBlock merge) : Codegen Unit)
      fun _ => ⟨labels, pending, false, scopes, kept⟩ :=
  .liftBind (branchConditional_acts c thenBlock elseBlock merge) (.selectionMerge hm) fun _ =>
    .branchIf kept ht he lasting

theorem guardedLogical_does (isAnd : Bool) (left : Value) (h : right.Does p xs whole)
    (type : Ident) :
    Does (Calling p whole right.node.callOrder) [.body p xs, .value left.id, .shared type]
      (guardedLogical p isAnd left right type) fun v => [.value v.id, .shared v.type] := by
  refine .of_goes p xs (fun _ => (guardedLogical_writes isAnd left type
    h.value.runs.writes).mono fun _ _ _ _ => trivial) ?_
  refine .bind (.run (currentBlock_does p xs left.id)) fun leftBlock => ?_
  refine .bind .fresh fun rightBlock => .bind .fresh fun merge => ?_
  have rest : Goes [.body p xs, .value left.id, .shared type] .between .inside
      (Calling p whole right.node.callOrder)
      ⟨[rightBlock, merge], [rightBlock, merge], false, [], [.leaves leftBlock left.id]⟩ (do
        beginBlock rightBlock
        let r ← right.value p
        let rightEnd ← currentBlock
        branch merge
        beginBlock merge
        return { id := ← emitOn .phi type [left.id, leftBlock, r.id, rightEnd], type })
      fun v : Value => .done [.value v.id, .shared v.type] := by
    refine .bind (.beginBlock [.leaves leftBlock left.id] (by simp [Fact.isLasting])) fun _ => ?_
    refine .ahead (.run h.value) fun r => ?_
    refine .bind (.run (currentBlock_does p xs r.id)) fun rightEnd => ?_
    refine .bind (.branch [.leaves leftBlock left.id, .leaves rightEnd r.id] (by simp)
      (by simp [Fact.isLasting])) fun _ => ?_
    refine .bind (.beginBlock [.leaves leftBlock left.id, .leaves rightEnd r.id]
      (by simp [Fact.isLasting])) fun _ => ?_
    exact .bind .phi fun id => .done .pure (q := fun _ => entails_refl)
  split <;> exact .bind
    (branchConditional_goes [.leaves leftBlock left.id] (by simp [Fact.isLasting])
    (by simp) (by simp) (by simp)) fun _ => rest

theorem logical_does (isAnd : Bool) {left : Deferred} (hl : left.Does p xs whole)
    (hr : right.Does p xs whole) :
    Performs p xs whole (left.node.callOrder ++ right.node.callOrder)
    (logical p isAnd left right) := by
  refine .bind typeBool_does.up fun type => ?_
  refine .both hl.value fun l => ?_
  split
  · refine .ahead hr.value fun r => ?_
    have plain : (if isAnd then Opcode.logicalAnd else .logicalOr).isPlain := by
      cases isAnd <;> rfl
    exact .bind (emitOn_does _ type [l.id, r.id] plain) fun id => .pure
  · exact .ahead (guardedLogical_does isAnd l hr type) fun v => .pure

end Selection

/-! ## Loops -/

section Loop

variable {base : List Fact} {labels pending : List Ident} {scopes : List JumpScope}
  {facts : List Fact} {merge : Ident}

theorem loopTest_goes {test : Deferred} (h : test.Does p xs whole) {again : Ident}
    [Gives facts (.body p xs)] (ha : again ∈ labels) (hm : merge ∈ labels) :
    Goes base .inside .between (Calling p whole test.node.callOrder)
      ⟨labels, pending, true, scopes, facts⟩ (loopTest p test again merge)
      fun _ => ⟨labels, pending, false, scopes, []⟩ :=
  .ahead (.run h.value) fun _ => .branchIf [] ha hm (by simp)

theorem leaveHeader_goes [Gives base (.body p xs)] (h : ∀ a ∈ test, a.Does p xs whole)
    (testFirst live : Bool) {bodyBlock : Ident} (hb : bodyBlock ∈ labels) (hm : merge ∈ labels) :
    Goes base .inside .between (Calling p whole (if testFirst then optionalOrder test else []))
      ⟨labels, pending, true, [], facts⟩ (leaveHeader p test testFirst bodyBlock merge live)
      fun _ => ⟨labels, pending, false, [], []⟩ := by
  have straight : ∀ facts, Goes base .inside .between (Calling p whole [])
      ⟨labels, pending, true, [], facts⟩ (liftM (branch bodyBlock) : Codegen Unit)
      fun _ => ⟨labels, pending, false, [], []⟩ := fun _ => .quiet (.branch [] (.inl hb) (by simp))
  cases test with
  | none => cases testFirst <;> exact straight facts
  | some test =>
    cases testFirst with
    | false => exact straight facts
    | true =>
      refine .bind .fresh fun block => .bind (.branch [] (by simp) (by simp)) fun _ => ?_
      refine .bind (.order (perm_append_singleton _ _) (.beginAt [] (by simp))) fun _ => ?_
      exact (loopTest_goes (h _ rfl) (by simp [hb]) (by simp [hm])).forget
        (by simp +contextual) (by simp)

theorem leaveContinue_goes (h : ∀ a ∈ test, a.Does p xs whole)
    (testFirst : Bool) {header : Ident} [Gives facts (.body p xs)]
    (hh : header ∈ labels) (hm : merge ∈ labels) :
    Goes base .inside .between (Calling p whole (if testFirst then [] else optionalOrder test))
      ⟨labels, pending, true, scopes, facts⟩ (leaveContinue p test testFirst header merge)
      fun _ => ⟨labels, pending, false, scopes, []⟩ := by
  have straight : Goes base .inside .between (Calling p whole [])
    ⟨labels, pending, true, scopes, facts⟩
      (liftM (branch header) : Codegen Unit) fun _ => ⟨labels, pending, false, scopes, []⟩ :=
    .quiet (.branch [] (.inl hh) (by simp))
  cases test with
  | none => cases testFirst <;> exact straight
  | some test =>
    cases testFirst with
    | true => exact straight
    | false => exact loopTest_goes (h _ rfl) hh hm

end Loop

theorem loop_does (ht : ∀ a ∈ test, a.Does p xs whole) (testFirst : Bool)
    (hb : ∀ a ∈ body, a.Does p xs whole) (hn : ∀ a ∈ terminal, a.Does p xs whole)
    (advice : LoopAdvice) : Does (Calling p whole
      (if testFirst then optionalOrder test ++ (optionalOrder body ++ optionalOrder terminal)
        else (optionalOrder body ++ optionalOrder terminal) ++ optionalOrder test)) [.body p xs]
      (loop p test body terminal testFirst advice) fun _ => [] := by
  have order :
    (if testFirst then optionalOrder test ++ (optionalOrder body ++ optionalOrder terminal)
      else (optionalOrder body ++ optionalOrder terminal) ++ optionalOrder test) =
      (if testFirst then optionalOrder test else []) ++
      (optionalOrder body ++ (optionalOrder terminal ++
        if testFirst then [] else optionalOrder test)) := by cases testFirst <;> simp
  refine .of_goes p xs ?_ (.cast ?_ order)
  · exact fun _ => (loop_writes testFirst advice (fun a ha => (ht a ha).value.runs.writes)
      (fun a ha => (hb a ha).exec.runs.writes) fun a ha => (hn a ha).exec.runs.writes).mono
      fun _ _ _ _ => trivial
  refine .bind (.run isLive_does) fun live => ?_
  refine .bind .fresh fun header => .bind .fresh fun bodyBlock => ?_
  refine .bind .fresh fun continueBlock => .bind .fresh fun merge => ?_
  refine .bind (.finishBlock [] (by simp) (by simp)) fun _ => ?_
  refine .bind (.beginAt [] (by simp)) fun _ => ?_
  refine .lookBuilder (fun _ => rfl) fun b => ?_
  refine .bind (.emitVoid (by decide) (by simp [valueIds]) ?_ rfl) fun _ => ?_
  · simp [labelIds, ids]
  refine .both (leaveHeader_goes ht testFirst live (by simp) (by simp)) fun _ => ?_
  have inside : Goes [.body p xs] .between .between (Calling p whole (optionalOrder body))
      ⟨[header, bodyBlock, continueBlock, merge], [bodyBlock, continueBlock, merge],
        false, [.loop merge continueBlock], []⟩ (do
        beginAt bodyBlock live
        body.forM Deferred.exec
        finishBlock continueBlock)
      fun _ => ⟨[header, bodyBlock, continueBlock, merge], [continueBlock, merge], false,
        [.loop merge continueBlock], []⟩ := by
    refine .bind (.beginAt [] (by simp)) fun _ => .ahead (.run (optional_does hb)) fun _ => ?_
    exact .finishBlock [] (by simp) (by simp)
  refine .both (.within ?_ inside) fun _ => ?_
  · simp [JumpScope.labels, JumpScope.merge, JumpScope.continueTarget?]
  refine .bind (.beginAt [] (by simp)) fun _ => .both (.run (optional_does hn)) fun _ => ?_
  refine .ahead (leaveContinue_goes ht testFirst (by simp) (by simp)) fun _ => ?_
  exact (Goes.beginAt [] (by simp)).done

/-! ## Switches -/

section Switch

variable {base : List Fact} [Gives base (.body p xs)] {labels : List Ident}
  {scopes : List JumpScope} {facts : List Fact} {merge : Ident}

theorem groupBodies_goes (length : blocks.length = groups.length)
    (h : ∀ g ∈ groups, ∀ a ∈ g.statements, a.Does p xs whole) (sub : ∀ t ∈ blocks, t ∈ labels)
    (hm : merge ∈ labels) {rest : List Ident} : Goes base .between .between
      (Calling p whole (deferredOrder (groups.flatMap CaseGroup.statements)))
      ⟨labels, blocks ++ rest, false, scopes, facts⟩ (groupBodies live merge groups blocks)
      fun _ => ⟨labels, rest, false, scopes, []⟩ := by
  induction groups generalizing blocks facts with
  | nil =>
    obtain rfl := eq_nil_of_length_eq_zero length
    exact .quiet .pure
  | cons g groups ih =>
    cases blocks with
    | nil => cases length
    | cons block blocks =>
      have next : blocks.head?.getD merge ∈ labels := by
        cases blocks with
        | nil => exact hm
        | cons next blocks => exact sub next (by simp)
      have order : deferredOrder ((g :: groups).flatMap CaseGroup.statements) =
          deferredOrder g.statements ++ deferredOrder (groups.flatMap CaseGroup.statements) := by
        simp [deferredOrder]
      rw [order]
      refine .bind (.beginAt [] (by simp)) fun _ => ?_
      refine .both (.run (.forCalls fun a ha => (h g mem_cons_self a ha).exec)) fun _ => ?_
      refine .bind (.finishBlock [] (.inl next) (by simp)) fun _ => ?_
      exact ih (Nat.succ.inj length) (fun g hg => h g (mem_cons_of_mem _ hg))
        fun t ht => sub t (mem_cons_of_mem _ ht)

end Switch

theorem switchOn_does {selector : Ident} {body : List Deferred} (hb : ∀ a ∈ body, a.Does p xs whole)
    (wide : Bool) (advice : SelectionAdvice) : Does (Calling p whole (deferredOrder
      ((caseGroups (fun d => d.node.label?) body).flatMap CaseGroup.statements)))
      [.body p xs, .value selector] (switchOn selector wide body advice) fun _ => [] := by
  refine .of_goes p xs ?_ ?_
  · exact fun _ => (switchOn_writes wide advice fun a ha => (hb a ha).exec.runs.writes).mono
      fun _ _ _ _ => trivial
  refine .bind (.run isLive_does) fun live => ?_
  extract_lets groups
  refine .join Absorbs.toJoined (fun _ _ _ => Steps.length_of_ends_mapM) (.freshAll groups)
    fun blocks length => ?_
  refine .bind .fresh fun merge => ?_
  refine .bind (.selectionMerge (by simp)) fun _ => ?_
  refine .bind (.endBlock [] (by simp) (by simp [valueIds, ids])
    (fun t ht => .inl ?_) (by simp) rfl rfl) fun _ => ?_
  · have target : t ∈ Operand.ids (switchTargets groups blocks merge wide) := by
      simpa [labelIds, ids, switchTargets] using ht
    rcases mem_ids_switchTargets target with rfl | known
    · simp
    · simp [known]
  refine .ahead (.within ?_ (groupBodies_goes length (fun g hg a ha => hb a
    (CaseGroup.mem_of_mem_caseGroups hg ha)) (by simp +contextual) (by simp))) fun _ => ?_
  · simp [JumpScope.labels, JumpScope.merge, JumpScope.continueTarget?]
  exact (Goes.beginAt [] (by simp)).done

theorem switch_does {selector : Deferred} {body : List Deferred} (hs : selector.Does p xs whole)
    (hb : ∀ a ∈ body, a.Does p xs whole) (advice : SelectionAdvice)
    (labelled : whole → ∀ d ∈ body.head?, d.node.label?.isSome)
    (plain : whole → ∀ d ∈ body, ¬ d.node.label?.isNone → d.node.callOrder = []) :
    Does (Calling p whole (selector.node.callOrder ++ deferredOrder body)) [.body p xs]
      (switch p selector body advice) fun _ => [] := by
  refine .both hs.value fun _ => .last (.widen (switchOn_does hb _ advice)
    ((CaseGroup.statements_caseGroups_sublist _ body).flatMap _) fun complete => ?_)
  rw [CaseGroup.statements_caseGroups (labelled complete)]
  exact order_filter (plain complete)

/-! ## Jumps out of constructs -/

theorem returnStatement_does (h : ∀ a ∈ value, a.Does p xs whole)
    (span : Span) : Does (Calling p whole (optionalOrder value)) [.body p xs]
      (returnStatement p value span) fun _ => [] := by
  refine .lookState (fun _ => rfl) fun s => ?_
  cases value with
  | none => exact .quiet (stop_does p xs rfl)
  | some value =>
    cases s.returnType with
    | none => exact .failAt rfl
    | some declared =>
      refine .bind (bodyType_does xs declared) fun type => ?_
      refine .ahead (h value rfl).value fun v => ?_
      split
      · exact returnValue_does p xs v.id
      · refine .bind (localVariable_does _ type).up fun var => ?_
        refine .bind (AccessPath.storeByParts_does (.ofPointer var type .function) v.id v.type).up
          (h := by simp [AccessPath.ofPointer])
          (fun _ => ?_)
        refine .bind (loadFrom_does var type) fun id => ?_
        exact returnValue_does p xs id

theorem leave_does (p : Program) (xs : List SymbolId) (span : Span) :
    Does (Quiet p) [.body p xs] (leave span) fun _ => [] := by
  refine .of_goes p xs (fun _ => (leave_writes span).mono fun _ _ _ _ => trivial) ?_
  refine .lookScopes p xs (fun _ => rfl) fun s => ?_
  cases s.scopes with
  | nil => exact .failAt rfl
  | cons scope scopes => exact jumpTo_goes (by simp [JumpScope.labels])

theorem nextRound_does (p : Program) (xs : List SymbolId) (span : Span) :
    Does (Quiet p) [.body p xs] (nextRound span) fun _ => [] := by
  refine .of_goes p xs (fun _ => (nextRound_writes span).mono fun _ _ _ _ => trivial) ?_
  refine .lookScopes p xs (fun _ => rfl) fun s => ?_
  cases found : s.scopes.findSome? JumpScope.continueTarget? with
  | none => exact .failAt rfl
  | some target =>
    obtain ⟨scope, hscope, ht⟩ := exists_of_findSome?_eq_some found
    refine jumpTo_goes (mem_append_left _ (mem_flatMap.2 ⟨scope, hscope, ?_⟩))
    exact mem_map_of_mem (by simp [JumpScope.labels, ht])

theorem jump_does (kind : Jump) (h : ∀ a ∈ value, a.Does p xs whole)
    (span : Span) (nothing : whole → kind ≠ .ret → value = none) :
    Does (Calling p whole (optionalOrder value)) [.body p xs] (jump p kind value span) fun _ =>
    [] := by
  have skips : ∀ {c : Codegen Unit}, Does (Quiet p) [.body p xs] c (fun _ => []) → kind ≠ .ret →
      Does (Calling p whole (optionalOrder value)) [.body p xs] c fun _ => [] :=
    fun free other => .skip free fun complete => by simp [nothing complete other, optionalOrder]
  cases kind with
  | leave => exact skips (leave_does p xs span) (by decide)
  | next => exact skips (nextRound_does p xs span) (by decide)
  | ret => exact returnStatement_does h span
  | kill =>
    refine skips (.lookBuilder (fun _ => rfl) fun b => stop_does p xs ?_) (by decide)
    split <;> rfl
  | terminateInvocation =>
    exact skips (.bind (useExtension_does (by decide)).up fun _ =>
      stop_does p xs rfl) (by decide)
  | demote =>
    refine skips (.bind (require_does (by decide)).up fun _ => ?_) (by decide)
    exact (emitVoid_does .demoteToHelperInvocation [] rfl).up.last
  | ignoreIntersection | terminateRay => exact skips (stop_does p xs rfl) (by decide)
  | caseLabel _ | defaultLabel => exact .fail rfl

end ShaderGen.Codegen
