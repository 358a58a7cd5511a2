import ShaderGen.Proofs.Scope.Construct

/-!
# Intrinsic functions

Every strategy gives an instruction whose operands are the values of the arguments, and constants.
Which instruction that is only matters in that it does not end the block; the one that does is dealt
with on its own.
-/

namespace ShaderGen

open Builder List

variable {opcode : Opcode}

/-! ## Images -/

namespace ImageCall

variable {p : Program} (c : ImageCall)

/-- What a call on an image takes its operands from. -/
abbrev facts : List Fact :=
  .value c.image.id :: .shared c.image.type :: .shared c.type :: c.arguments.map .value

theorem emit_does (op : Opcode) (operands : List Operand) (plain : op.isPlain) :
    Does (Quiet p) (.shared c.type :: (Operand.ids operands).map .value) (c.emit op operands)
    Outcome.facts :=
  .bind (Builder.emit_does op c.type operands plain).up fun _ => .pure

theorem reference?_does (coordinates : Ident) (rest : List Ident) :
    Does (Quiet p) (.value coordinates :: rest.map .value) (c.reference? coordinates rest)
      fun reference => reference.toList.map .value := by
  unfold reference?
  split
  · exact .pure (h := by simp)
  · split
    · refine .pure (h := ?_)
      cases rest <;> simp
    · refine .bind (typeFloat_does 32).up fun float => ?_
      exact .bind (Codegen.extract_does float coordinates _) fun _ => .pure (h := by simp)

theorem ids_operands (o : ImageOperand) (ids : List Ident) :
    Operand.ids (o.operands ids) = ids := by
  simp [ImageOperand.operands]

theorem levelOperands_does (implicit : Bool) (rest : List Ident) :
    Does (Quiet p) (rest.map .value) (c.levelOperands implicit rest)
      fun level => (Operand.ids level).map .value := by
  unfold levelOperands
  split
  · exact .pure (h := by simp [ids_operands])
  · exact .failAt rfl
  · exact .pure (h := by simp [ids_operands])
  · exact .failAt rfl
  · split
    · split
      · exact .pure (h := by simp [ids_operands])
      · exact .pure
    · exact .bind (constFloat_does 0).up fun _ => .pure (h := by simp [ids_operands])

theorem plain_sampleOpcode (implicit reference : Bool) :
    (sampleOpcode implicit reference).isPlain := by
  cases implicit <;> cases reference <;> rfl

theorem sample_does (stage : Stage) : Does (Quiet p) c.facts (c.sample stage) Outcome.facts := by
  unfold sample
  split
  · exact .failAt rfl
  · rename_i coordinates rest found
    refine .bind (c.reference?_does coordinates rest) (h := by simp +contextual [facts, found])
      (fun reference => ?_)
    refine .bind (c.levelOperands_does _ rest) (h := by simp +contextual [facts, found])
      (fun level => ?_)
    refine (c.emit_does _ _ (plain_sampleOpcode _ _)).last (p := ?_)
    simp [facts, found]

theorem gather_does : Does (Quiet p) c.facts c.gather Outcome.facts := by
  unfold gather
  split
  · exact .failAt rfl
  · rename_i coordinates rest found
    have finish (detail : Ident) : Does (Quiet p) (.value detail :: c.facts)
        (c.emit (if c.sampler.shadow then .imageDrefGather else .imageGather)
          (Operand.refs [c.image.id, coordinates, detail])) Outcome.facts := by
      refine (c.emit_does _ _ (by split <;> rfl)).last (p := ?_)
      simp [facts, found]
    cases rest with
    | cons detail rest => exact .learn (.value detail) (by simp [facts, found]) (finish detail)
    | nil =>
      cases shadow : c.sampler.shadow with
      | true => exact .failAt rfl
      | false =>
        refine .bind (constSigned_does 0).up fun detail => ?_
        have := finish detail
        rw [shadow] at this
        exact this.last

theorem bareImage_does : Does (Quiet p) c.facts c.bareImage ([.value ·]) := by
  unfold bareImage
  split
  · exact .pure
  · refine .lookBuilder (fun _ => rfl) fun b => ?_
    split
    · rename_i type found
      refine .learn (.shared type) (gives_form found (by simp)) ?_
      exact (Codegen.emitOn_does .image type _ rfl).last
    · exact .fail rfl

theorem fetch_does : Does (Quiet p) c.facts c.fetch Outcome.facts := by
  refine .bind c.bareImage_does fun image => ?_
  split
  · exact .failAt rfl
  · rename_i coordinates rest found
    refine (c.emit_does .imageFetch _ rfl).last (p := ?_)
    cases rest <;> simp [facts, found, ids_operands]

theorem size_does : Does (Quiet p) c.facts c.size Outcome.facts := by
  refine .bind c.bareImage_does fun image => ?_
  split
  · exact (c.emit_does .imageQuerySize _ rfl).last
  · split
    · rename_i level rest found
      exact (c.emit_does .imageQuerySizeLod _ rfl).last (p := by simp [facts, found])
    · refine .bind (constSigned_does 0).up fun level => ?_
      exact (c.emit_does .imageQuerySizeLod _ rfl).last

theorem levels_does : Does (Quiet p) c.facts c.levels Outcome.facts :=
  .bind c.bareImage_does fun _ => (c.emit_does .imageQueryLevels _ rfl).last

theorem readAt_does (coordinates : Ident) (rest : List Ident) :
    Does (Quiet p) (.value coordinates :: rest.map .value ++ c.facts) (c.readAt coordinates rest)
      Outcome.facts := by
  refine (c.emit_does .imageRead _ rfl).last (p := ?_)
  cases rest <;> cases c.sampler.multisampled <;> simp [facts, ids_operands]

theorem read_does : Does (Quiet p) c.facts c.read Outcome.facts := by
  unfold read
  refine .guard (fun _ => (addCapability_does _).up) ?_
  split
  · exact .failAt rfl
  · rename_i coordinates rest found
    exact (c.readAt_does coordinates rest).last (p := by simp +contextual [facts, found])

theorem readSubpass_does : Does (Quiet p) c.facts c.readSubpass Outcome.facts := by
  refine .bind (typeInt_does 32 true).up fun int => ?_
  refine .bind (typeVector_does int 2).up fun type => ?_
  refine .bind (constFilled_does type 0).up fun here => ?_
  exact (c.readAt_does here c.arguments).last

theorem write_does : Does (Quiet p) c.facts c.write Outcome.facts := by
  unfold write
  refine .guard (fun _ => (addCapability_does _).up) ?_
  split
  · rename_i coordinates texel first last
    refine .bind (emitVoid_does .imageWrite _ rfl).up (h := ?_) fun _ => .pure
    split
    · rename_i found _
      simp only [found, head?_cons, Option.some.injEq, getLast?_cons_cons,
        getLast?_singleton] at first last
      simp [facts, found, ids_operands, ← first, ← last]
    · simp [facts, mem_of_head? first, mem_of_getLast? last]
  · exact .failAt rfl

theorem run_does (p : Program) (xs : List SymbolId) :
    Does (Quiet p) (.body p xs :: c.facts) (c.run p) Outcome.facts := by
  unfold run
  split
  · exact (c.sample_does _).last
  · exact (c.sample_does _).last
  · exact (c.sample_does _).last
  · exact c.gather_does.last
  · exact c.fetch_does.last
  · exact c.size_does.last
  · exact c.size_does.last
  · exact c.levels_does.last
  · exact c.read_does.last
  · exact c.readSubpass_does.last
  · exact c.write_does.last
  · exact (Codegen.unsupported_does xs _ c.info).last

end ImageCall

namespace Codegen

variable {p : Program} {xs : List SymbolId} {whole : Prop} {arguments : List Deferred}
  (h : ∀ a ∈ arguments, a.Does p xs whole)

variable (op : Intrinsic)

include h in
theorem imageIntrinsic_does (info : Info) :
    Performs p xs whole (deferredOrder arguments) (imageIntrinsic p op arguments info) := by
  cases arguments with
  | nil => exact .failAt rfl
  | cons image rest =>
    unfold imageIntrinsic
    dsimp only
    split
    · refine .both (h image mem_cons_self).value fun v => ?_
      have values : ∀ a ∈ rest, Does (Calling p whole a.node.callOrder) [.body p xs]
          (do return (← a.value p).id) ([.value ·]) := fun a ha =>
        .ahead (h a (mem_cons_of_mem image ha)).value fun _ => .pure
      refine .ahead (.mapFactCalls .value values) fun ids => ?_
      refine .bind (bodyType_does xs info.type) fun type => ?_
      exact (ImageCall.run_does _ p xs).last (p := by simp [ImageCall.facts])
    · exact .failAt rfl

/-! ## Operands -/

theorem addressOperand_does {argument : Deferred} (h : argument.Does p xs whole) :
    Does (Calling p whole argument.node.callOrder) [.body p xs] (addressOperand p argument)
      fun r => .value r.1 :: r.2.flatMap CopyBack.facts := by
  refine .ahead h.path fun path => ?_
  split
  · exact .bind path.pointer_does.up fun _ => .pure
  · refine .bind (bodyType_does xs argument.type) fun type => ?_
    refine .bind (localVariable_does _ type).up fun var => ?_
    exact .pure

include h in
theorem operands_does :
    Does (Calling p whole (deferredOrder arguments)) [.body p xs] (operands p op arguments)
      fun r => r.1.map .value ++ r.2.flatMap CopyBack.facts := by
  have numbered : (arguments.zipIdx.flatMap fun q => q.1.node.callOrder) =
    deferredOrder arguments :=
    order_eq (zipIdx_map_fst 0 arguments)
  rw [← numbered]
  refine .ahead
    (.mapCalls (fun r : Ident × List CopyBack => .value r.1 :: r.2.flatMap CopyBack.facts) ?_)
    (h := entails_refl) fun evaluated => .pure (h := entails_operands evaluated)
  rintro ⟨argument, i⟩ hq
  have known : argument.Does p xs whole := h argument (fst_mem_of_mem_zipIdx hq)
  dsimp only
  split
  · exact addressOperand_does known
  · exact .ahead known.value fun _ => .pure

theorem replicateScalars_does (xs : List SymbolId) (op : Intrinsic) (values : List Ident)
    (arguments : List Deferred) (result : ShaderType) :
    Does (Quiet p) (.body p xs :: values.map .value) (replicateScalars p op values arguments result)
      fun ids => ids.map .value := by
  unfold replicateScalars
  split
  · exact .pure
  · refine .mapFact .value ?_
    rintro ⟨value, argument⟩ hq
    have known : value ∈ values := (of_mem_zip hq).1
    dsimp only
    split
    · exact (broadcast_does xs ⟨value, argument.type⟩ result).last (p := by simp [known])
    · exact .pure (h := by simp [known])

theorem entails_resultOf {before : List Fact} {v : Value} (info : Info)
    [h : Entails before [.value v.id, .shared v.type]] :
    Entails before (resultOf v info).facts := by
  unfold resultOf
  split
  · exact entails_nil
  · exact h

/-! ## Instructions with the arguments as operands -/

include h in
theorem mixByTruth_does (info : Info) (type : Ident) :
    Does (Calling p whole (deferredOrder arguments)) [.body p xs, .shared type]
      (mixByTruth p arguments info type) Outcome.facts := by
  unfold mixByTruth
  split
  · rename_i x y a
    have three : deferredOrder [x, y, a] =
        x.node.callOrder ++ (y.node.callOrder ++ a.node.callOrder) := by simp [deferredOrder]
    rw [three]
    refine .both (h x (by simp)).value fun x => .both (h y (by simp)).value fun y => ?_
    refine .ahead (h a (by simp)).evaluate fun selector => ?_
    split
    · refine .bind (broadcast_does xs selector info.type) fun id => ?_
      exact .bind (emitOn_does .select type _ rfl) fun _ => .pure
    · rw [pure_bind]
      exact .bind (emitOn_does .select type _ rfl) fun _ => .pure
  · exact .failAt rfl

include h in
theorem libraryIntrinsic_does (number : Nat) (info : Info) :
    Performs p xs whole (deferredOrder arguments)
    (libraryIntrinsic p op number arguments info) := by
  refine .bind (bodyType_does xs info.type) fun type => ?_
  split
  · exact (mixByTruth_does h info type).last
  · refine .ahead (operands_does h op) fun (values, backs) => ?_
    refine .bind (replicateScalars_does xs op values arguments info.type) fun ids => ?_
    refine .bind librarySet_does.up fun set => ?_
    refine .bind (Builder.emit_does .extInst type _ rfl).up fun id => ?_
    exact .next copyBacks_does fun _ =>
      .pure (h := entails_resultOf info)

include h in
theorem coreIntrinsic_does (plain : opcode.isPlain) (info : Info) :
    Performs p xs whole (deferredOrder arguments) (coreIntrinsic p op opcode arguments info) := by
  refine .ahead (operands_does h op) fun (values, backs) => ?_
  refine .bind (replicateScalars_does xs op values arguments info.type) fun ids => ?_
  split
  · refine .bind (emitVoid_does opcode _ plain).up fun _ => ?_
    exact .next copyBacks_does fun _ => .pure
  · refine .bind (bodyType_does xs info.type) fun type => ?_
    refine .bind (emitOn_does opcode type ids plain) fun id => ?_
    exact .next copyBacks_does fun _ => .pure

include h in
theorem compareIntrinsic_does (operator : BinaryOp) (info : Info) :
    Performs p xs whole (deferredOrder arguments)
    (compareIntrinsic p op operator arguments info) := by
  unfold compareIntrinsic
  split
  · rename_i left right
    have both : deferredOrder [left, right] = left.node.callOrder ++ right.node.callOrder := by
      simp [deferredOrder]
    rw [both]
    exact binaryOperation_does operator (h left (by simp)) (h right (by simp)) info
  · exact .failAt rfl

/-! ## Arithmetic with two results -/

theorem pairType_does (part : Ident) :
    Does (Quiet p) [.shared part] (pairType part) ([.shared ·]) := by
  refine .lookState (fun _ => rfl) fun s => ?_
  split
  · rename_i type found
    refine .learn (.shared type) ⟨fun l b hold hs => ?_⟩ .pure
    exact (hold (.records s) (by simp) hs).pairTypes part type found
  · refine .bind (typeStruct_does [part, part] _).up fun type => ?_
    have remember : Does (Quiet p) [.shared type] (modify fun st : State =>
        { st with pairTypes := (part, type) :: st.pairTypes } : Codegen PUnit) fun _ => [] := by
      refine ⟨?_, .remember (fun s => .step (.refl s) (.remember _ _ _)) fun _ _ => rfl⟩
      refine .tabulate (fun _ => ⟨_, _, _, _, _, rfl⟩) fun l s hs hold r => ?_
      refine ⟨r.bindings, r.signatures, r.structTypes, r.references, fun key t found => ?_⟩
      rw [lookup_cons] at found
      split at found
      · cases found
        exact hold (.shared type) (by simp) hs
      · exact r.pairTypes key t found
    exact .bind remember fun _ => .pure

theorem deliverPair_does (op : Opcode) (low high type : Ident) (outputs : List Ident)
    (span : Span) : Does (Quiet p) (.value low :: .value high :: .shared type :: outputs.map .value)
      (deliverPair op low high type outputs span) Outcome.facts := by
  unfold deliverPair
  split
  case h_5 => exact .failAt rfl
  case h_1 | h_2 => exact .bind (storeTo_does _ high) fun _ => .pure
  all_goals exact .bind (storeTo_does _ high) fun _ => .bind (storeTo_does _ low) fun _ => .pure

include h in
theorem twoResultIntrinsic_does (plain : opcode.isPlain) (info : Info) :
    Performs p xs whole (deferredOrder arguments)
    (twoResultIntrinsic p op opcode arguments info) := by
  unfold twoResultIntrinsic
  split
  · exact .failAt rfl
  · refine .bind (bodyType_does xs _) fun part => ?_
    refine .ahead (operands_does h op) fun r => ?_
    split
    · rename_i x y outputs backs
      refine .bind (pairType_does part) fun type => ?_
      refine .bind (emitOn_does opcode type [x, y] plain) fun pair => ?_
      refine .bind (extract_does part pair [0]) fun low => ?_
      refine .bind (extract_does part pair [1]) fun high => ?_
      refine .bind (h := by simp) (deliverPair_does opcode low high part outputs info.span)
        fun result => ?_
      exact .next copyBacks_does fun _ => .pure
    · exact .failAt rfl

/-! ## Atomic operations -/

include h in
theorem imageAtomicIntrinsic_does (plain : opcode.isPlain) (info : Info) :
    Performs p xs whole (deferredOrder arguments)
    (imageAtomicIntrinsic p op opcode arguments info) := by
  refine .ahead (operands_does h op) fun r => ?_
  split
  · refine .bind (bodyType_does xs info.type) fun type => ?_
    refine .bind (typePointer_does .image type).up fun pointerType => ?_
    refine .bind (constWord_does 0).up fun sample => ?_
    refine .bind (emitOn_does .imageTexelPointer pointerType _ rfl) fun texel => ?_
    refine .bind (constWord_does _).up fun scope => ?_
    refine .bind (constWord_does 0).up fun semantics => ?_
    exact .bind (emitOn_does opcode type _ plain) fun _ => .pure
  · exact .failAt rfl
  · exact .failAt rfl

theorem plain_unsignedAtomic (plain : opcode.isPlain) : (unsignedAtomic opcode).isPlain := by
  unfold unsignedAtomic
  split
  · rfl
  · rfl
  · exact plain

theorem emitAtomic_does (plain : opcode.isPlain) (type : Ident) (place : List Ident)
    (semantics : Ident) (data : List Ident) (span : Span) :
    Does (Quiet p) (.shared type :: .value semantics :: place.map .value ++ data.map .value)
      (emitAtomic opcode type place semantics data span) Outcome.facts := by
  unfold emitAtomic
  split
  · exact .bind (emitVoid_does .atomicStore _ rfl).up fun _ => .pure
  · exact .bind (emitOn_does .atomicLoad type place rfl) fun _ => .pure
  · exact .bind (emitOn_does .atomicCompareExchange type _ rfl) fun _ => .pure
  · exact .failAt rfl
  · exact .bind (emitOn_does _ type _ plain) fun _ => .pure

include h in
theorem atomicIntrinsic_does (plain : opcode.isPlain) (info : Info) :
    Performs p xs whole (deferredOrder arguments) (atomicIntrinsic p op opcode arguments info) := by
  unfold atomicIntrinsic
  split
  · exact .failAt rfl
  · extract_lets t
    split
    · exact unsupported_performs xs _ info
    · have chosen : (if t.isUnsignedInt then unsignedAtomic opcode else opcode).isPlain := by
        split
        · exact plain_unsignedAtomic plain
        · exact plain
      refine .ahead (operands_does h op) fun (values, backs) => ?_
      refine .ensure rfl fun _ => ?_
      refine .guard (fun _ => (addCapability_does _).up) ?_
      refine .bind (bodyType_does xs t) fun type => ?_
      refine .bind (constWord_does _).up fun scope => ?_
      refine .bind (constWord_does 0).up fun relaxed => ?_
      refine (emitAtomic_does chosen type _ relaxed _ info.span).last (p := ?_)
      cases values <;> simp +contextual

/-! ## Barriers and groups -/

theorem barrierIntrinsic_does (p : Program) (op : Intrinsic) :
    Does (Quiet p) [] (barrierIntrinsic p op) Outcome.facts := by
  unfold barrierIntrinsic
  obtain ⟨waits, scope, semantics⟩ := barrierParts op p.stage
  refine .bind (constWord_does _).up fun scope => ?_
  refine .bind (constWord_does _).up fun semantics => ?_
  dsimp only
  split
  · refine .bind (constWord_does _).up fun execution => ?_
    exact .bind (emitVoid_does .controlBarrier _ rfl).up fun _ => .pure
  · exact .bind (emitVoid_does .memoryBarrier _ rfl).up fun _ => .pure

theorem plain_of_subgroupOpcode? {op : Intrinsic} {t : ShaderType} {r : Opcode × List Operand}
    (h : subgroupOpcode? op t = some r) : r.1.isPlain ∧ Operand.ids r.2 = [] := by
  unfold subgroupOpcode? ShaderType.byKind at h
  split at h <;> cases h
  all_goals refine ⟨?_, rfl⟩
  all_goals first | rfl | (dsimp only; split <;> rfl)

include h in
theorem subgroupIntrinsic_does (info : Info)
    (nothing : whole → op = .subgroupBarrier → deferredOrder arguments = []) :
    Performs p xs whole (deferredOrder arguments) (subgroupIntrinsic p op arguments info) := by
  refine .lookBuilder (fun _ => rfl) fun b => ?_
  split
  · exact (unsupported_performs xs _ info).last
  · refine .bind (constWord_does _).up fun scope => ?_
    split
    · refine .skip (.bind (constWord_does _).up fun semantics => ?_) fun complete =>
        nothing complete ‹_›
      exact .bind (emitVoid_does .controlBarrier _ rfl).up fun _ => .pure
    · refine .ahead (operands_does h op) fun (values, _) => ?_
      refine .bind (bodyType_does xs info.type) fun type => ?_
      split
      · exact (unsupported_does xs _ info).last
      · rename_i opcode front found
        obtain ⟨plain, literal⟩ := plain_of_subgroupOpcode? found
        refine .bind (Builder.emit_does opcode type _ plain).up (h := ?_) fun _ => .pure
        simp [literal]

/-! ## Rays -/

theorem selectIntersection_does (arguments : List Deferred) (values : List Ident)
    (span : Span) : Does (Quiet p) (values.map .value) (selectIntersection op arguments values span)
      fun ids => ids.map .value := by
  unfold selectIntersection
  split
  · exact .failAt rfl
  · refine .bind (constWord_does _).up fun selector => .pure (h := ?_)
    refine entails_map.2 fun x hx => ?_
    rcases mem_or_eq_of_mem_set hx with hx | rfl
    · simp [hx]
    · simp

include h in
theorem rayQueryIntrinsic_does (plain : opcode.isPlain) (info : Info) :
    Performs p xs whole (deferredOrder arguments)
    (rayQueryIntrinsic p op opcode arguments info) := by
  refine .ahead (operands_does h op) fun (values, _) => ?_
  have finish (values : List Ident) : Does (Quiet p) (values.map .value ++ [.body p xs])
      (do
        if info.type.isVoid then
          emitVoid opcode (Operand.refs values)
          return .void
        else
          let type ← valueType p info.type
          return .value { id := ← emitOn opcode type values, type } : Codegen Outcome)
      Outcome.facts := by
    split
    · exact .bind (emitVoid_does opcode _ plain).up fun _ => .pure
    · refine .bind (bodyType_does xs info.type) fun type => ?_
      exact .bind (emitOn_does opcode type values plain) fun _ => .pure
  dsimp only
  split
  · exact .bind (selectIntersection_does op arguments values info.span) fun ids =>
      (finish ids).last
  · rw [pure_bind]
    exact (finish values).last

/-! ## All intrinsics -/

include h in
theorem meshIntrinsic_does (plain : opcode = .emitMeshTasksEXT ∨ opcode.isPlain) (info : Info) :
    Performs p xs whole (deferredOrder arguments) (meshIntrinsic p op opcode arguments info) := by
  unfold meshIntrinsic
  split
  · refine .ahead (operands_does h op) fun (values, _) => ?_
    refine .next (terminate_does p xs rfl ?_ rfl rfl) fun _ => .pure
    simp [Instruction.valueIds, Instruction.ids]
  · exact coreIntrinsic_does h op (plain.resolve_left ‹_›) info

/-- The instructions that a strategy may end with. -/
def Strategy.opcodes : Strategy → List Opcode
  | .core o | .twoResult o | .imageAtomic o | .atomic o | .primitive o | .rayQuery o
  | .rayTracing o => [o]
  | .coreByKind f s u => [f, s, u]
  | .mesh o => if o = .emitMeshTasksEXT then [] else [o]
  | _ => []

theorem plain_strategy : ∀ o ∈ Strategy.opcodes op.strategy, o.isPlain := by
  cases op <;> decide

include h in
theorem intrinsic_does (info : Info) (nothing : whole → op.takesNothing → arguments = []) :
    Performs p xs whole (deferredOrder arguments) (intrinsic p op arguments info) := by
  have ignored : whole → op.takesNothing → deferredOrder arguments = [] := fun complete takes => by
    rw [nothing complete takes]
    rfl
  refine .bind (require_does op.requirements_general).up fun _ => ?_
  have plain := plain_strategy op
  cases strategy : op.strategy <;> rw [strategy] at plain
  case library => exact libraryIntrinsic_does h op _ info
  case libraryByKind => exact libraryIntrinsic_does h op _ info
  case core => exact coreIntrinsic_does h op (plain _ (by simp [Strategy.opcodes])) info
  case coreByKind float signed unsigned =>
    extract_lets pick
    have chosen : (pick float signed unsigned).isPlain := by
      refine plain _ ?_
      cases arguments with
      | nil => simp [pick, Strategy.opcodes]
      | cons first rest =>
        simp only [pick, Strategy.opcodes, ShaderType.byKind]
        split <;> simp
    dsimp only
    split
    · exact unsupported_performs xs _ info
    · exact coreIntrinsic_does h op chosen info
  case compare => exact compareIntrinsic_does h op _ info
  case twoResult => exact twoResultIntrinsic_does h op (plain _ (by simp [Strategy.opcodes])) info
  case image => exact imageIntrinsic_does h op info
  case imageAtomic =>
    exact imageAtomicIntrinsic_does h op (plain _ (by simp [Strategy.opcodes])) info
  case atomic => exact atomicIntrinsic_does h op (plain _ (by simp [Strategy.opcodes])) info
  case barrier =>
    exact .skip ((barrierIntrinsic_does p op).last) fun complete =>
      ignored complete (by simp [Intrinsic.takesNothing, strategy])
  case primitive opcode =>
    refine .skip (.bind (emitVoid_does opcode [] (plain _ (by simp [Strategy.opcodes]))).up fun _ =>
      .pure) fun complete => ?_
    exact ignored complete (by simp [Intrinsic.takesNothing, strategy])
  case subgroup =>
    refine subgroupIntrinsic_does h op info fun complete barrier => ignored complete ?_
    rw [barrier]
    rfl
  case rayQuery => exact rayQueryIntrinsic_does h op (plain _ (by simp [Strategy.opcodes])) info
  case rayTracing => exact coreIntrinsic_does h op (plain _ (by simp [Strategy.opcodes])) info
  case mesh opcode =>
    refine meshIntrinsic_does h op ?_ info
    by_cases tasks : opcode = .emitMeshTasksEXT
    · exact .inl tasks
    · exact .inr (plain opcode (by simp [Strategy.opcodes, tasks]))

end Codegen

end ShaderGen
