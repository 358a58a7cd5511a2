import ShaderGen.Proofs.Scope.Operand

/-!
# Operators, conversions and constructors

Each of these operations evaluates its operands one after the other and appends instructions to the
block in which the last one has ended. None of the instructions leads anywhere or calls anything,
which is a fact about the tables they are taken from.
-/

namespace ShaderGen

open List
open Steps (Ends)

variable {op : BinaryOp} {o : Opcode} {kind : OperandKind}

/-! ## Tables of instructions -/

theorem BinaryOp.inert_of_opcode? (h : op.opcode? kind = some o) : o.isInert := by
  have all : (op.opcode? kind).all Opcode.isInert = true := by
    cases kind <;> cases op <;> rfl
  simpa [h] using all

theorem BinaryOp.inert_of_productOpcode? (h : op.productOpcode? = some o) : o.isInert := by
  have all : op.productOpcode?.all Opcode.isInert = true := by cases op <;> rfl
  simpa [h] using all

theorem BinaryOp.inert_of_scalingOpcode? (h : op.scalingOpcode? = some o) : o.isInert := by
  have all : op.scalingOpcode?.all Opcode.isInert = true := by cases op <;> rfl
  simpa [h] using all

theorem BinaryOp.inert_of_reduction? (h : op.reduction? = some o) : o.isInert := by
  have all : op.reduction?.all Opcode.isInert = true := by cases op <;> rfl
  simpa [h] using all

theorem UnaryOp.inert_of_opcode? {op : UnaryOp} (h : op.opcode? kind = some o) : o.isInert := by
  have all : (op.opcode? kind).all Opcode.isInert = true := by
    cases kind <;> cases op <;> rfl
  simpa [h] using all

theorem plain_of_conversionOpcode? {source target : BasicType}
    (h : conversionOpcode? source target = some o) : o.isPlain := by
  unfold conversionOpcode? at h
  split at h
  case h_8 | h_9 =>
    split at h
    · cases h
      rfl
    · cases h
  case h_10 => cases h
  all_goals
    cases h
    rfl

namespace Codegen

variable {p : Program} {xs : List SymbolId} {whole : Prop} {operand left right : Deferred}
  {arguments : List Deferred} {E : Effect State} [State.Computes p E]

/-! ## Arithmetic -/

theorem broadcast_does (xs : List SymbolId) (scalar : Evaluated) (like : ShaderType) :
    Does E [.body p xs, .value scalar.id] (broadcast p scalar like) ([.value ·]) := by
  refine .bind (bodyType_does xs _) fun type => ?_
  exact (computeOn_does .compositeConstruct type _ rfl).last (p := by simp)

theorem scale_does {op : Opcode} (inert : op.isInert) (left right : Evaluated) (type : Ident) :
    Does E [.body p xs, .value left.id, .value right.id, .shared type] (scale p op left right type)
      ([.value ·]) := by
  have scaled : ∀ whole factor : Evaluated,
      Does E [.body p xs, .value whole.id, .value factor.id, .shared type] (do
        if whole.type.isFloat then emitOn op type [whole.id, factor.id]
        else
          let factor ← broadcast p factor whole.type
          emitOn .iMul type [whole.id, factor]) ([.value ·]) := by
    intro whole factor
    split
    · exact (computeOn_does op type [whole.id, factor.id] inert).last
    · refine .bind (broadcast_does xs factor whole.type) fun factor => ?_
      exact (computeOn_does .iMul type [whole.id, factor] rfl).last
  unfold scale
  by_cases isScalar : left.type.isScalar
  · simp only [isScalar, if_true]
    exact (scaled right left).last
  · simp only [isScalar]
    exact scaled left right

theorem operandColumn_does (xs : List SymbolId) (operand : Evaluated) (column : Nat)
    (columnType : ShaderType) (type : Ident) : Does E [.body p xs, .value operand.id, .shared type]
      (operandColumn p operand column columnType type) ([.value ·]) := by
  unfold operandColumn
  split
  · exact (extract_does type operand.id _).last
  · exact (broadcast_does xs operand columnType).last

theorem overColumns_does {op : Opcode} (inert : op.isInert) (matrix : ShaderType)
    (left right : Evaluated) (type : Ident) :
    Does E [.body p xs, .value left.id, .value right.id, .shared type]
      (overColumns p op matrix left right type) ([.value ·]) := by
  refine .bind (bodyType_does xs _) fun columnType => ?_
  refine .next (.mapFact .value fun c _ => ?_) fun columns => ?_
  · refine .bind (operandColumn_does xs left c _ columnType) fun l => ?_
    refine .bind (operandColumn_does xs right c _ columnType) fun r => ?_
    exact (computeOn_does op columnType [l, r] inert).last
  · exact (computeOn_does .compositeConstruct type columns rfl).last

theorem matrixOperation_does (op : BinaryOp) (left right : Evaluated) (type : Ident) (span : Span) :
    Does E [.body p xs, .value left.id, .value right.id, .shared type]
      (matrixOperation p op left right type span) ([.value ·]) := by
  unfold matrixOperation
  extract_lets matrix
  split
  · exact overColumns_does (BinaryOp.inert_of_opcode? ‹_›) matrix left right type
  · exact (nullFor_does _ type span).last

theorem alignOperands_does (xs : List SymbolId) (op : BinaryOp) (left right : Evaluated) :
    Does E [.body p xs, .value left.id, .value right.id] (alignOperands p op left right)
      fun q => [.value q.1, .value q.2] := by
  unfold alignOperands
  split
  · exact .bind (broadcast_does xs right left.type) fun r => .pure
  split
  · exact .bind (broadcast_does xs left right.type) fun l => .pure
  · exact .pure

theorem vectorOperation_does (op : BinaryOp) (left right : Evaluated) (result : ShaderType)
    (type : Ident) (span : Span) :
    Does E [.body p xs, .value left.id, .value right.id, .shared type]
      (vectorOperation p op left right result type span) ([.value ·]) := by
  refine .bind (alignOperands_does xs op left right) fun aligned => ?_
  obtain ⟨l, r⟩ := aligned
  dsimp only
  split
  · exact (nullFor_does _ type span).last
  · have inert := BinaryOp.inert_of_opcode? ‹_›
    split
    · refine .bind Builder.typeBool_does.compute fun truth => ?_
      refine .bind (Builder.typeVector_does truth _).compute fun truths => ?_
      refine .bind (computeOn_does _ truths [l, r] inert) fun compared => ?_
      exact (computeOn_does _ type [compared] (BinaryOp.inert_of_reduction? ‹_›)).last
    · exact (computeOn_does _ type [l, r] inert).last

theorem operation_does (xs : List SymbolId) (op : BinaryOp) (left right : Evaluated)
    (result : ShaderType) (span : Span) :
    Does E [.body p xs, .value left.id, .value right.id] (operation p op left right result span)
      fun v => [.value v.id, .shared v.type] := by
  refine .bind (bodyType_does xs result) fun type => ?_
  extract_lets isAggregate
  have finish : ∀ {c : Codegen Ident}, Does E [.body p xs, .value left.id, .value right.id,
      .shared type] c ([.value ·]) →
      Does E ([.shared type] ++ [.body p xs, .value left.id, .value right.id])
        (c >>= fun id => pure { id, type })
        fun v : Value => [.value v.id, .shared v.type] :=
    fun h => .bind h fun id => .pure
  split
  · exact finish (scale_does (BinaryOp.inert_of_scalingOpcode? ‹_›) left right type)
  · exact finish
      ((computeOn_does _ type [left.id, right.id] (BinaryOp.inert_of_productOpcode? ‹_›)).last)
  · split
    · exact finish ((nullFor_does _ type span).last)
    split
    · exact finish (matrixOperation_does op left right type span)
    · exact finish (vectorOperation_does op left right result type span)

theorem unaryOverColumns_does (xs : List SymbolId) {op : Opcode} (inert : op.isInert)
    (t : ShaderType)
    (v : Value) : Does E [.body p xs, .value v.id, .shared v.type] (unaryOverColumns p op t v)
      ([.value ·]) := by
  refine .bind (bodyType_does xs _) fun columnType => ?_
  refine .next (.mapFact .value fun c _ => ?_) fun columns => ?_
  · refine .bind (extract_does columnType v.id [c]) fun column => ?_
    exact (computeOn_does op columnType [column] inert).last
  · exact (computeOn_does .compositeConstruct v.type columns rfl).last

theorem unaryValue_does (op : UnaryOp) (t : ShaderType) (info : Info) (v : Value) :
    Does E [.value v.id, .shared v.type, .body p xs] (match op.opcode? t.operandKind with
      | none => unsupported p s!"unary {Named.name op} on {t.basic.describe}" info
      | some opcode => do
        let id ← if t.isMatrix then unaryOverColumns p opcode t v else emitOn opcode v.type [v.id]
        return .value { id, type := v.type }) Outcome.facts := by
  split
  · exact (unsupported_does xs _ info).last
  · have inert := UnaryOp.inert_of_opcode? ‹_›
    split
    · exact .bind (unaryOverColumns_does xs inert t v) fun id => .pure
    · exact .bind (computeOn_does _ v.type [v.id] inert) fun id => .pure

theorem binaryOperation_does (op : BinaryOp) (hl : left.Does p xs whole)
    (hr : right.Does p xs whole)
    (info : Info) : Performs p xs whole (left.node.callOrder ++ right.node.callOrder)
      (binaryOperation p op left right info) := by
  refine .both hl.evaluate fun l => .ahead hr.evaluate fun r => ?_
  exact .bind (operation_does xs op l r info.type info.span) fun v => .pure

/-! ## Conversions -/

theorem numberOf_does (xs : List SymbolId) (t : ShaderType) (value : Nat) :
    Does (Quiet p) [.body p xs] (numberOf p t value) ([.shared ·]) :=
  .bind (bodyType_does xs t) fun type => (Builder.constFilled_does type value).up.last

theorem resize_does (xs : List SymbolId) (value : Ident) (middle : ShaderType) (op : Opcode)
    (target : Ident) (plain : op.isPlain) :
    Does (Quiet p) [.body p xs, .value value, .shared target] (resize p value middle op target)
      ([.value ·]) := by
  refine .bind (bodyType_does xs middle) fun middleType => ?_
  refine .bind (emitOn_does op middleType [value] plain) fun resized => ?_
  exact (emitOn_does .bitcast target [resized] rfl).last

theorem convertComponents_does (xs : List SymbolId) (value : Ident) (source target : ShaderType)
    (type : Ident) (span : Span) : Does (Quiet p) [.body p xs, .value value, .shared type]
      (convertComponents p value source target type span) ([.value ·]) := by
  have select : Does (Quiet p) [.body p xs, .value value, .shared type] (do
      let one ← numberOf p target 1
      let nought ← numberOf p target 0
      emitOn .select type [value, one, nought]) ([.value ·]) := by
    refine .bind (numberOf_does xs target 1) fun one => ?_
    refine .bind (numberOf_does xs target 0) fun nought => ?_
    exact (emitOn_does .select type [value, one, nought] rfl).last
  have compare : ∀ op : Opcode, op.isPlain →
      Does (Quiet p) [.body p xs, .value value, .shared type] (do
        let nought ← numberOf p source 0
        emitOn op type [value, nought]) ([.value ·]) := by
    intro op plain
    refine .bind (numberOf_does xs source 0) fun nought => ?_
    exact (emitOn_does op type [value, nought] plain).last
  unfold convertComponents
  split
  · exact select
  · exact select
  · exact select
  · exact compare .iNotEqual rfl
  · exact compare .iNotEqual rfl
  · exact compare .fUnordNotEqual rfl
  · split
    · exact (emitOn_does _ type [value] (plain_of_conversionOpcode? ‹_›)).last
    · exact resize_does xs value _ .sConvert type rfl
    · exact resize_does xs value _ .uConvert type rfl
    · exact (nullFor_does _ type span).last

theorem convert_does (xs : List SymbolId) (value : Ident) (source target : ShaderType)
    (span : Span) : Does (Quiet p) [.body p xs, .value value] (convert p value source target span)
      ([.value ·]) := by
  refine .bind (bodyType_does xs source) fun sourceType => ?_
  refine .bind (bodyType_does xs target) fun targetType => ?_
  split
  · exact .pure
  split
  · exact (nullFor_does _ targetType span).last
  · exact (convertComponents_does xs value source target targetType span).last

theorem conversion_does (h : operand.Does p xs whole) (info : Info) :
    Performs p xs whole operand.node.callOrder (conversion p operand info) := by
  refine .ahead h.value fun v => ?_
  refine .bind (convert_does xs v.id operand.type info.type info.span) fun id => ?_
  exact .bind (bodyType_does xs info.type) fun type => .pure

/-! ## Constructors -/

theorem scalarsOf_does (h : operand.Does p xs whole) (limit : Nat) :
    Does (Calling p whole operand.node.callOrder) [.body p xs] (scalarsOf p operand limit)
      fun ids => ids.map .value := by
  refine .ahead h.value fun v => ?_
  extract_lets t
  refine .bind (bodyType_does xs t.scalarType) fun type => ?_
  split
  · exact .pure
  split
  · exact (Does.mapFact .value fun c _ => extract_does type v.id c).last
  split
  · exact (Does.mapFact .value fun c _ => extract_does type v.id [c]).last
  · exact .failAt rfl

theorem addScalars_does (h : operand.Does p xs whole) (scalar : ShaderType) (count : Nat)
    (span : Span) (ids : List Ident) :
    Does (Calling p whole operand.node.callOrder) (ids.map .value ++ [.body p xs])
      (addScalars p scalar count span ids operand) fun ids => ids.map .value := by
  refine .ahead (scalarsOf_does h _) fun components => ?_
  have converted : ∀ c ∈ components.take (count - ids.length), Does (Quiet p)
      (components.map .value ++ (ids.map .value ++ [.body p xs]))
      (convert p c operand.type.scalarType scalar span) ([.value ·]) := by
    intro c hc
    have member : c ∈ components := mem_of_mem_take hc
    exact (convert_does xs c _ scalar span).last (p := by simp [member])
  exact .next (.mapFact .value converted) fun new => .pure (h := by simp +contextual)

section Arguments

variable (h : ∀ a ∈ arguments, a.Does p xs whole) (info : Info) (type : Ident)

include h

theorem flatten_does (scalar : ShaderType) (count : Nat) (span : Span) :
    Does (Calling p whole (deferredOrder arguments)) [.body p xs]
    (flatten p arguments scalar count span)
      fun ids => ids.map .value := by
  have scalars : Does (Calling p whole (deferredOrder arguments)) [.body p xs]
      (arguments.foldlM (addScalars p scalar count span) []) fun ids => ids.map .value :=
    .foldCalls fun ids a ha => addScalars_does (h a ha) scalar count span ids
  refine .ahead scalars fun ids => ?_
  exact .ensure rfl fun _ => .pure

theorem joinVector_does :
    Does (Calling p whole (deferredOrder arguments)) [.body p xs, .shared type]
      (joinVector p arguments info type) ([.value ·]) := by
  have finish : ∀ parts : List Ident, Does (Quiet p)
    (parts.map .value ++ [.body p xs, .shared type])
      (emitOn .compositeConstruct type parts) ([.value ·]) :=
    fun parts => (emitOn_does .compositeConstruct type parts rfl).last
  unfold joinVector
  dsimp only
  split
  · have values : Does (Calling p whole (deferredOrder arguments)) [.body p xs]
        (arguments.mapM fun a => do return (← a.value p).id) fun ids => ids.map .value :=
      .mapFactCalls .value fun a ha => .ahead (h a ha).value fun v => .pure
    exact .ahead values finish
  · exact .ahead (flatten_does h _ _ _) finish

theorem makeVector_does :
    Does (Calling p whole (deferredOrder arguments)) [.body p xs, .shared type]
      (makeVector p arguments info type) ([.value ·]) := by
  unfold makeVector
  dsimp only
  split
  · rename_i a
    have ha := h a (by simp)
    split
    · rw [deferredOrder_singleton]
      refine .ahead ha.value fun v => ?_
      refine .bind (convert_does xs v.id _ _ _) fun scalar => ?_
      exact (emitOn_does .compositeConstruct type _ rfl).last (p := by simp)
    split
    · rw [deferredOrder_singleton]
      exact .ahead ha.value fun v => (convert_does xs v.id _ _ _).last
    · exact joinVector_does h info type
  · exact joinVector_does h info type

omit h in
theorem resizedColumn_does (xs : List SymbolId) (source target : ShaderType)
    (matrix sourceScalar one nought : Ident) (c : Nat) (span : Span) :
    Does (Quiet p) [.body p xs, .value matrix, .shared sourceScalar, .value one, .value nought]
      (resizedColumn p source target matrix sourceScalar one nought c span)
      fun ids => ids.map .value := by
  refine .mapFact .value fun r _ => ?_
  split
  · refine .bind (extract_does sourceScalar matrix [c, r]) fun cell => ?_
    exact (convert_does xs cell _ _ span).last
  · split <;> exact .pure

omit h in
theorem mem_of_mem_chunks {α : Type} {size : Nat} {list chunk : List α}
    (h : chunk ∈ chunks size list) {a : α} (ha : a ∈ chunk) : a ∈ list := by
  obtain ⟨k, -, rfl⟩ := mem_map.1 h
  exact mem_of_mem_drop (mem_of_mem_take ha)

theorem matrixCells_does (one nought : Ident) :
    Does (Calling p whole (deferredOrder arguments)) [.body p xs, .value one, .value nought]
      (matrixCells p arguments info one nought)
      fun columns => columns.flatMap fun ids => ids.map .value := by
  have spread : Does (Calling p whole (deferredOrder arguments))
    [.body p xs, .value one, .value nought]
      (do
        let scalars ← flatten p arguments info.type.scalarType
          (info.type.matrixCols * info.type.matrixRows) info.span
        return chunks info.type.matrixRows scalars)
      fun columns => columns.flatMap fun ids => ids.map .value := by
    refine .ahead (flatten_does h _ _ _) fun scalars => .pure (h := ?_)
    simp only [entails_flatMap, entails_map]
    intro chunk hchunk id hid
    exact .of_mem (by simp [mem_of_mem_chunks hchunk hid])
  unfold matrixCells
  dsimp only
  split
  · rename_i a
    have ha := h a (by simp)
    split
    · rw [deferredOrder_singleton]
      refine .ahead ha.value fun v => ?_
      refine .bind (convert_does xs v.id _ _ _) fun scalar => .pure (h := ?_)
      simp only [entails_flatMap, entails_map, forall_mem_map]
      intro c _ r _
      split <;> simp
    split
    · rw [deferredOrder_singleton]
      refine .ahead ha.value fun v => ?_
      refine .bind (bodyType_does xs _) fun sourceScalar => ?_
      exact (Does.mapM (fun ids => ids.map .value) fun c _ =>
        resizedColumn_does xs a.type info.type v.id sourceScalar one nought c info.span).last
    · exact spread
  · exact spread

theorem makeMatrix_does :
    Does (Calling p whole (deferredOrder arguments)) [.body p xs, .shared type]
      (makeMatrix p arguments info type) ([.value ·]) := by
  refine .bind (bodyType_does xs _) fun columnType => ?_
  refine .bind (bodyType_does xs _) fun scalarType => ?_
  refine .bind (Builder.constFilled_does scalarType 0).up fun nought => ?_
  refine .bind (Builder.constFilled_does scalarType 1).up fun one => ?_
  refine .ahead (matrixCells_does h info one nought) fun cells => ?_
  refine .next (.mapFact .value fun ids hids => ?_) fun columns => ?_
  · refine (emitOn_does .compositeConstruct columnType ids rfl).last (p := ?_)
    simp only [entails_cons, entails_map]
    refine ⟨by simp, fun id hid => .of_mem (mem_append_left _ ?_)⟩
    exact mem_flatMap.2 ⟨ids, hids, mem_map_of_mem hid⟩
  · exact (emitOn_does .compositeConstruct type columns rfl).last

omit h in
theorem length_constituents {t : ShaderType} {count : Nat} (transparent : t.isOpaque = false ∨
    t.isArray) (arity : ∀ n, p.constructorArity? t = some n → count = n) {types : List ShaderType}
    {s s' : State} (ends : Ends (constituents p t count) s types s') : count = types.length := by
  unfold constituents at ends
  split at ends
  · cases ends
    simp
  split at ends
  · cases ends
    simp
  rename_i noArray noMatrix
  split at ends
  · rename_i id hid
    obtain ⟨d, s1, ⟨declared, rfl⟩, rest⟩ := Steps.ends_then struct_ends ends
    cases rest
    have plain : t.isOpaque = false := transparent.resolve_right noArray
    refine (arity _ ?_).trans (length_map _).symm
    simp [Program.constructorArity?, noArray, noMatrix, plain, hid, declared]
  · cases ends
    simp

theorem makeAggregate_does (transparent : info.type.isOpaque = false ∨ info.type.isArray)
    (arity : whole → ∀ n, p.constructorArity? info.type = some n → arguments.length = n) :
    Does (Calling p whole (deferredOrder arguments)) [.body p xs, .shared type]
      (makeAggregate p arguments info type) ([.value ·]) := by
  refine .afterwards (constituents_does p info.type arguments.length) fun s types s' ends => ?_
  have parts : Does (Calling p whole ((arguments.zip types).flatMap fun q => q.1.node.callOrder))
      [.body p xs] ((arguments.zip types).mapM fun q => do
        let v ← q.1.value p
        let wanted ← valueType p q.2
        (Builder.recast v.id v.type wanted : Codegen Ident)) fun ids => ids.map .value := by
    refine .mapFactCalls .value fun q hq => .ahead (h q.1 (of_mem_zip hq).1).value fun v => ?_
    refine .bind (bodyType_does xs q.2) fun wanted => ?_
    exact (Builder.recast_does v.id v.type wanted).up.last
  refine .widen (.ahead parts fun ids => ?_) (order_sublist (map_fst_zip_sublist types))
    fun complete => order_eq (map_fst_zip (Nat.le_of_eq ?_))
  · exact (emitOn_does .compositeConstruct type ids rfl).last
  · exact length_constituents transparent (arity complete) ends

theorem makeScalar_does (single : whole → arguments.length = 1) :
    Does (Calling p whole (deferredOrder arguments)) [.body p xs] (makeScalar p arguments info)
      ([.value ·]) := by
  unfold makeScalar
  split
  · exact .failAt rfl
  · rename_i a rest
    refine .widen (.ahead (scalarsOf_does (h a (by simp)) 1) fun scalars => ?_)
      (sublist_append_left _ _) fun complete => ?_
    · split
      · exact .failAt rfl
      · exact (convert_does xs _ _ _ _).last (p := by simp)
    · obtain rfl : rest = [] := by simpa using single complete
      simp

theorem construction_does
    (arity : whole → ∀ n, p.constructorArity? info.type = some n → arguments.length = n) :
    Performs p xs whole (deferredOrder arguments) (construction p arguments info) := by
  refine .bind (bodyType_does xs info.type) fun type => ?_
  have finish : ∀ {c : Codegen Ident}, Does (Calling p whole (deferredOrder arguments))
      [.body p xs, .shared type] c ([.value ·]) →
      Does (Calling p whole (deferredOrder arguments)) [.shared type, .body p xs]
        (c >>= fun id => pure (.value { id, type })) Outcome.facts :=
    fun hc => .ahead hc fun id => .pure
  split
  · split
    · rename_i image sampler
      have both : deferredOrder [image, sampler] = image.node.callOrder ++
        sampler.node.callOrder := by
        simp [deferredOrder]
      rw [both]
      refine .both (h image (by simp)).value fun i => ?_
      refine .ahead (h sampler (by simp)).value fun s => ?_
      exact .bind (emitOn_does .sampledImage type [i.id, s.id] rfl) fun id => .pure
    · exact (unsupported_performs xs _ info).last
  rename_i transparent
  have plain : info.type.isOpaque = false ∨ info.type.isArray := by
    simpa [or_iff_not_imp_left] using transparent
  split
  · exact finish (makeAggregate_does h info type plain arity)
  split
  · exact finish (makeMatrix_does h info type)
  split
  · exact finish (makeVector_does h info type)
  rename_i noAggregate noMatrix noVector
  obtain ⟨noArray, noStruct⟩ : info.type.isArray = false ∧ info.type.structId? = none := by
    simpa [ShaderType.isStruct] using noAggregate
  refine finish ((makeScalar_does h info fun complete => arity complete 1 ?_).last)
  simp_all [Program.constructorArity?]

end Arguments

end Codegen

end ShaderGen
